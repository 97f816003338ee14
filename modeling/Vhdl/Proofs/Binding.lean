import Vhdl.Proofs.Instances
import Vhdl.Proofs.LinkEdges
import Vhdl.Proofs.Provenance

/-! # What instances bind to

An instance of an entity binds to the entity that its name denotes or to the architecture that it
selects, an instance of a component to the first entity of its name, and an instance of a
configuration to the configuration and to what this configures. An instance that binds to nothing is
reported.
-/

namespace Vhdl

namespace Store

/-- What the name of an instantiated unit denotes. A simple name denotes a unit of the own library,
and behind the name of a visible library it denotes a unit of that library. -/
inductive InstanceDenotes (store : Store) (own : Library) (seen : Visibility) (kind : UnitKind) :
    Name → UnitId → Prop where
  | simple {ident : Identifier} {id : UnitId} :
      store.Declares own.id kind ident.normalized id →
      InstanceDenotes store own seen kind (.simple ident) id
  | selected {libraryName ident : Identifier} {library : LibraryId} {id : UnitId} :
      seen.library? libraryName.normalized = some library →
      store.Declares library kind ident.normalized id →
      InstanceDenotes store own seen kind (.selected (.simple libraryName) ident) id

def HasArchitecture (store : Store) (entity : UnitId) (name : String) (id : UnitId) : Prop :=
  ∃ unit, store.unit? id = some unit ∧ unit.kind = .architecture ∧
    unit.primaryTarget = some (.unit entity) ∧ unit.ident.normalized = name

/-- What is meant by an entity for which an architecture may be named: this architecture if there is
one, and the entity otherwise. -/
inductive Selects (store : Store) (entity : UnitId) : Option Identifier → UnitId → Prop where
  | architecture {ident : Identifier} {id : UnitId} :
      store.HasArchitecture entity ident.normalized id → Selects store entity (some ident) id
  | entity {named : Option Identifier} :
      (∀ ident, named = some ident → ∀ id, ¬ store.HasArchitecture entity ident.normalized id) →
      Selects store entity named entity

/-- The entity of that name in the first of the libraries that has one. -/
inductive FirstEntity (store : Store) (name : String) : List LibraryId → UnitId → Prop where
  | here {library : LibraryId} {rest : List LibraryId} {id : UnitId} :
      store.Declares library .entity name id → FirstEntity store name (library :: rest) id
  | later {library : LibraryId} {rest : List LibraryId} {id : UnitId} :
      (∀ other, ¬ store.Declares library .entity name other) → FirstEntity store name rest id →
      FirstEntity store name (library :: rest) id

/-- What an instantiation in an architecture of the library `own` binds to, and by what kind of
edge. The architecture sees what `seen` says. -/
inductive Binds (store : Store) (own : Library) (seen : Visibility) :
    InstantiatedUnit → EdgeKind → UnitId → Prop where
  | entity {name : Name} {architecture : Option Identifier} {entity id : UnitId} :
      store.InstanceDenotes own seen .entity name entity →
      store.Selects entity architecture id →
      Binds store own seen (.entity name architecture) .entityInstantiation id
  | component {name : Name} {ident : Identifier} {id : UnitId} :
      name.suffix? = some ident →
      store.FirstEntity ident.normalized (own.id :: seen.libraries.map VisibleLibrary.id) id →
      Binds store own seen (.component name) .componentInstantiation id
  | configuration {name : Name} {id : UnitId} :
      store.InstanceDenotes own seen .configuration name id →
      Binds store own seen (.configuration name) .configurationReference id
  | configured {name : Name} {configuration entity id : UnitId} {unit : DesignUnit} :
      store.InstanceDenotes own seen .configuration name configuration →
      store.unit? configuration = some unit → unit.primaryTarget = some (.unit entity) →
      store.Selects entity unit.selectedArchitecture? id →
      Binds store own seen (.configuration name) .configurationInstantiation id

def Unbound (store : Store) (own : Library) (seen : Visibility) (unit : InstantiatedUnit) : Prop :=
  ∀ kind id, ¬ store.Binds own seen unit kind id

/-- A store with its registry in order and with sound links, as an analysis leaves it. -/
structure Settled (store : Store) : Prop where
  registry : store.Registry
  links : ∀ library ∈ store.libraries, ∀ id unit, store.unitIn? library.id id = some unit →
    store.LinksSound library unit

theorem Registry.settled_analyze {store : Store} (h : store.Registry) :
    store.analyze.store.Settled :=
  ⟨h.analyze, fun _ hm _ _ hu => h.linksSound_analyze hm hu⟩

variable {store : Store} {owner : LibraryId} {kind : UnitKind} {name : String} {id : UnitId}

theorem Settled.primaryTarget_iff (h : store.Settled) {library : Library}
    (hm : library ∈ store.libraries) {unit : DesignUnit}
    (hu : store.unitIn? library.id id = some unit) (hk : unit.kind = .architecture)
    {entity : UnitId} : unit.primaryTarget = some (.unit entity) ↔
      ∃ ident, unit.primaryName? = some ident ∧
        store.Declares library.id .entity ident.normalized entity := by
  have hl := (h.links library hm id unit hu).architecture
  obtain ⟨ident, context, body, doc⟩ := unit
  cases body with
  | architecture owner decls statements =>
    have ho := hl owner decls statements rfl (.unit entity)
    simpa [DesignUnit.primaryTarget, UnitBody.primaryTarget, DesignUnit.primaryName?] using ho
  | _ => cases hk

theorem Settled.declares_of_configuration (h : store.Settled) {unit : DesignUnit}
    (hu : store.unit? id = some unit) (hk : unit.kind = .configuration) {entity : UnitId}
    (ht : unit.primaryTarget = some (.unit entity)) :
    ∃ library name, store.Declares library .entity name entity := by
  obtain ⟨library, hm, hin⟩ := h.registry.exists_library hu
  have hl := (h.links library hm id unit hin).configuration
  obtain ⟨ident, context, body, doc⟩ := unit
  cases body with
  | configuration owner uses block =>
    obtain ⟨_, _, hd⟩ := hl owner uses block rfl _ ht
    cases hd with
    | simple hd => exact ⟨_, _, hd⟩
    | selected hd =>
      cases hd with
      | mk _ hd => exact ⟨_, _, hd⟩
  | _ => cases hk

theorem InstanceDenotes.declares {own : Library} {seen : Visibility} {unitName : Name}
    (h : store.InstanceDenotes own seen kind unitName id) :
    ∃ library name, store.Declares library kind name id := by
  cases h with
  | simple hd => exact ⟨_, _, hd⟩
  | selected _ hd => exact ⟨_, _, hd⟩

theorem Registry.exists_library_of_declares (h : store.Registry)
    (hd : store.Declares owner kind name id) : ∃ library ∈ store.libraries, library.id = owner := by
  obtain ⟨unit, hu, _⟩ := hd
  obtain ⟨library, hm, hin⟩ := h.exists_library (unit?_of_unitIn? hu)
  exact ⟨library, hm, (unitIn?_unique hin hu).1⟩

section FirstEntity

variable {library : LibraryId} {libraries : List LibraryId}

theorem firstEntity_cons_iff : store.FirstEntity name (library :: libraries) id ↔
    store.Declares library .entity name id ∨
      (∀ other, ¬ store.Declares library .entity name other) ∧
        store.FirstEntity name libraries id := by
  constructor
  · rintro (hd | ⟨hn, hr⟩)
    · exact .inl hd
    · exact .inr ⟨hn, hr⟩
  · rintro (hd | ⟨hn, hr⟩)
    · exact .here hd
    · exact .later hn hr

/-- A library that has been searched in vain need not be searched again. -/
theorem firstEntity_filter (hn : ∀ other, ¬ store.Declares library .entity name other) :
    store.FirstEntity name (libraries.filter (· != library)) id ↔
      store.FirstEntity name libraries id := by
  induction libraries with
  | nil => rfl
  | cons next rest ih =>
    by_cases he : next = library
    · subst he
      simp [firstEntity_cons_iff, hn, ih]
    · rw [List.filter_cons_of_pos (by simpa using he), firstEntity_cons_iff, firstEntity_cons_iff,
        ih]

theorem firstEntity_eraseDups : (libraries : List LibraryId) →
    (store.FirstEntity name libraries.eraseDups id ↔ store.FirstEntity name libraries id)
  | [] => Iff.rfl
  | next :: rest => by
    rw [List.eraseDups_cons, firstEntity_cons_iff, firstEntity_cons_iff, firstEntity_eraseDups _]
    exact or_congr_right (and_congr_right fun hn => firstEntity_filter hn)
termination_by libraries => libraries.length
decreasing_by exact Nat.lt_succ_of_le (List.length_filter_le _ _)

end FirstEntity

end Store

theorem Target.unit?_eq_some_iff {target : Target} {id : UnitId} :
    target.unit? = some id ↔ target = .unit id := by
  cases target <;> simp [unit?]

namespace Name

variable {name : Name} {idents : List Identifier}

theorem segments?_cases (h : name.segments? = some (idents, false)) :
    (∃ ident, name = .simple ident ∧ idents = [ident]) ∨
      ∃ base ident rest, name = .selected base ident ∧ base.segments? = some (rest, false) ∧
        idents = rest ++ [ident] := by
  cases name with
  | simple ident => exact .inl ⟨ident, rfl, by simpa [segments?, eq_comm] using h⟩
  | selected base ident =>
    unfold segments? at h
    split at h
    · next rest hb => exact .inr ⟨base, ident, rest, rfl, hb, by simpa [eq_comm] using h⟩
    · cases h
  | all base =>
    unfold segments? at h
    split at h
    · cases h
    · cases h
  | _ => cases h

theorem segments?_eq_one_iff {ident : Identifier} :
    name.segments? = some ([ident], false) ↔ name = .simple ident := by
  refine ⟨fun h => ?_, fun h => h ▸ rfl⟩
  rcases segments?_cases h with ⟨_, rfl, hi⟩ | ⟨base, _, rest, rfl, hb, hi⟩
  · rw [List.singleton_inj.mp hi]
  · -- The base has a segment, so that there would be two.
    have hl := congrArg List.length hi
    rcases segments?_cases hb with ⟨_, _, rfl⟩ | ⟨_, _, _, _, _, rfl⟩ <;> simp at hl

theorem segments?_eq_two_iff {first second : Identifier} :
    name.segments? = some ([first, second], false) ↔
      name = .selected (.simple first) second := by
  refine ⟨fun h => ?_, fun h => h ▸ rfl⟩
  rcases segments?_cases h with ⟨_, rfl, hi⟩ | ⟨base, _, rest, rfl, hb, hi⟩
  · simp at hi
  · obtain ⟨rfl, he⟩ := List.append_inj' (show [first] ++ [second] = _ from hi) rfl
    rw [segments?_eq_one_iff.mp hb, List.singleton_inj.mp he]

end Name

namespace Site

variable {site : Site} {seen : Visibility} {kind : UnitKind} {name : Name} {id : UnitId}

theorem Registered.findUnit?_iff (h : site.Registered) (hk : kind.isPrimary = true) :
    site.findUnit? seen kind name = some id ↔
      site.store.InstanceDenotes site.library seen kind name id := by
  unfold findUnit?
  constructor
  · intro hf
    split at hf
    · next ident hs =>
      obtain rfl := Name.segments?_eq_one_iff.mp hs
      exact .simple ((h.registry.primaryOfKind?_iff h.library hk).mp hf)
    · next libraryName ident hs =>
      obtain rfl := Name.segments?_eq_two_iff.mp hs
      obtain ⟨library, hl, hp⟩ := Option.bind_eq_some_iff.mp hf
      obtain ⟨owner, ho, hl⟩ := Option.bind_eq_some_iff.mp hl
      obtain ⟨hm, rfl⟩ := h.registry.library?_iff.mp hl
      exact .selected ho ((h.registry.primaryOfKind?_iff hm hk).mp hp)
    · cases hf
  · rintro (hd | ⟨hl, hd⟩)
    · exact (h.registry.primaryOfKind?_iff h.library hk).mpr hd
    · obtain ⟨library, hm, rfl⟩ := h.registry.exists_library_of_declares hd
      refine Option.bind_eq_some_iff.mpr ⟨library, ?_, (h.registry.primaryOfKind?_iff hm hk).mpr hd⟩
      rw [hl, Option.bind_some]
      exact h.registry.library?_iff.mpr ⟨hm, rfl⟩

theorem Registered.findSome?_entity_iff (h : site.Registered) {ident : Identifier}
    {libraries : List LibraryId} :
    ((libraries.filterMap site.store.library?).findSome? fun library =>
        site.store.primaryOfKind? library ident .entity) = some id ↔
      site.store.FirstEntity ident.normalized libraries id := by
  induction libraries with
  | nil => exact ⟨nofun, nofun⟩
  | cons owner rest ih =>
    rw [Store.firstEntity_cons_iff, ← ih]
    cases hl : site.store.library? owner with
    | none =>
      have hn : ∀ other, ¬ site.store.Declares owner .entity ident.normalized other := by
        intro other hd
        obtain ⟨library, hm, rfl⟩ := h.registry.exists_library_of_declares hd
        rw [h.registry.library?_iff.mpr ⟨hm, rfl⟩] at hl
        cases hl
      rw [List.filterMap_cons_none hl]
      simp [hn]
    | some library =>
      obtain ⟨hm, rfl⟩ := h.registry.library?_iff.mp hl
      have hp : ∀ other, site.store.Declares library.id .entity ident.normalized other ↔
          site.store.primaryOfKind? library ident .entity = some other := fun _ =>
        (h.registry.primaryOfKind?_iff hm rfl).symm
      rw [List.filterMap_cons_some hl, List.findSome?_cons]
      simp only [hp]
      cases site.store.primaryOfKind? library ident .entity with
      | none => simp
      | some found => simp

theorem Registered.findComponent?_iff (h : site.Registered) :
    site.findComponent? seen name = some id ↔ ∃ ident, name.suffix? = some ident ∧
      site.store.FirstEntity ident.normalized
        (site.library.id :: seen.libraries.map VisibleLibrary.id) id := by
  rw [findComponent?, Option.bind_eq_some_iff]
  refine exists_congr fun ident => and_congr_right fun _ => ?_
  rw [h.findSome?_entity_iff, Store.firstEntity_cons_iff, Store.firstEntity_cons_iff,
    Visibility.libraryIds, Store.firstEntity_eraseDups]

theorem findArchitecture?_iff (h : site.store.Settled) {owner : LibraryId} {entityName : String}
    {entity : UnitId} (hd : site.store.Declares owner .entity entityName entity)
    {ident : Identifier} : site.findArchitecture? entity ident = some id ↔
      site.store.HasArchitecture entity ident.normalized id := by
  obtain ⟨primary, hp, hk, rfl⟩ := hd
  obtain ⟨library, hm, hin⟩ := h.registry.exists_library (Store.unit?_of_unitIn? hp)
  obtain ⟨rfl, _⟩ := Store.unitIn?_unique hin hp
  obtain ⟨document, hr⟩ := h.registry.exists_registered? hm hp
  rw [findArchitecture?, hr, Option.bind_some, (h.registry.holds_mem hm).get?_iff]
  constructor
  · rintro ⟨unit, hu, hkey⟩
    obtain ⟨ha, hname, hn⟩ := DesignUnit.key_eq_architecture_iff.mp hkey
    obtain ⟨entityIdent, hi, he⟩ := Option.map_eq_some_iff.mp hname
    exact ⟨unit, Store.unit?_of_unitIn? hu, ha,
      (h.primaryTarget_iff hm hu ha).mpr ⟨entityIdent, hi, primary, hp, hk, he.symm⟩, hn⟩
  · rintro ⟨unit, hu, ha, ht, hn⟩
    obtain ⟨other, ho, hu⟩ := h.registry.exists_library hu
    obtain ⟨entityIdent, hi, found, hf, _, he⟩ := (h.primaryTarget_iff ho hu ha).mp ht
    obtain ⟨rfl, rfl⟩ := h.registry.library_unique ho hm hf hp
    refine ⟨unit, hu, DesignUnit.key_eq_architecture_iff.mpr ⟨ha, ?_, hn⟩⟩
    rw [hi, Option.map_some, he]

theorem select_eq_iff (h : site.store.Settled) {owner : LibraryId} {entityName : String}
    {entity : UnitId} (hd : site.store.Declares owner .entity entityName entity)
    {named : Option Identifier} : (named.bind (site.findArchitecture? entity)).getD entity = id ↔
      site.store.Selects entity named id := by
  cases named with
  | none =>
    constructor
    · rintro rfl
      exact .entity nofun
    · rintro ⟨_⟩
      rfl
  | some ident =>
    have ha : ∀ other, site.findArchitecture? entity ident = some other ↔
        site.store.HasArchitecture entity ident.normalized other := fun _ =>
      findArchitecture?_iff h hd
    rw [Option.bind_some]
    cases hf : site.findArchitecture? entity ident with
    | none =>
      have hn : ∀ other, ¬ site.store.HasArchitecture entity ident.normalized other := by
        intro other ho
        cases hf.symm.trans ((ha other).mpr ho)
      constructor
      · rintro rfl
        exact .entity fun _ he => Option.some.inj he ▸ hn
      · rintro (ho | _)
        · exact absurd ho (hn id)
        · rfl
    | some architecture =>
      have ho := (ha architecture).mp hf
      constructor
      · rintro rfl
        exact .architecture ho
      · rintro (hx | hn)
        · exact Option.some.inj (hf.symm.trans ((ha id).mpr hx))
        · exact absurd ho (hn ident rfl architecture)

theorem configuredUnit?_iff (h : site.store.Settled) {owner : LibraryId} {unitName : String}
    {configuration : UnitId}
    (hd : site.store.Declares owner .configuration unitName configuration) :
    site.configuredUnit? configuration = some id ↔ ∃ unit entity,
      site.store.unit? configuration = some unit ∧ unit.primaryTarget = some (.unit entity) ∧
        site.store.Selects entity unit.selectedArchitecture? id := by
  obtain ⟨unit, hu, hk, _⟩ := hd
  have hunit := Store.unit?_of_unitIn? hu
  rw [configuredUnit?, hunit, Option.bind_some, Option.map_eq_some_iff]
  constructor
  · rintro ⟨entity, he, hs⟩
    obtain ⟨target, ht, he⟩ := Option.bind_eq_some_iff.mp he
    obtain rfl := Target.unit?_eq_some_iff.mp he
    obtain ⟨_, _, hd⟩ := h.declares_of_configuration hunit hk ht
    exact ⟨unit, entity, rfl, ht, (select_eq_iff h hd).mp hs⟩
  · rintro ⟨_, entity, ⟨⟩, ht, hs⟩
    obtain ⟨_, _, hd⟩ := h.declares_of_configuration hunit hk ht
    exact ⟨entity, by rw [ht]; rfl, (select_eq_iff h hd).mpr hs⟩

variable {found : FoundInstance}

theorem dependences_bindEntity (name : Name) (architecture : Option Identifier) :
    (site.bindEntity seen found name architecture).dependences =
      (site.findUnit? seen .entity name).toList.map fun entity =>
        ⟨.unit ((architecture.bind (site.findArchitecture? entity)).getD entity),
          .entityInstantiation⟩ := by
  unfold bindEntity
  cases site.findUnit? seen .entity name with
  | none => rfl
  | some entity =>
    cases architecture with
    | none => rfl
    | some ident =>
      dsimp only [Option.bind_some, Option.toList_some, List.map_singleton]
      cases site.findArchitecture? entity ident <;> rfl

theorem dependences_bindComponent (name : Name) :
    (site.bindComponent seen found name).dependences =
      (site.findComponent? seen name).toList.map fun entity =>
        ⟨.unit entity, .componentInstantiation⟩ := by
  unfold bindComponent
  cases site.findComponent? seen name <;> rfl

theorem dependences_bindConfiguration (name : Name) :
    (site.bindConfiguration seen found name).dependences =
      (site.findUnit? seen .configuration name).toList.flatMap fun configuration =>
        ⟨.unit configuration, .configurationReference⟩ ::
          (site.configuredUnit? configuration).toList.map fun unit =>
            ⟨.unit unit, .configurationInstantiation⟩ := by
  unfold bindConfiguration
  cases site.findUnit? seen .configuration name with
  | none => rfl
  | some configuration => exact (List.append_nil _).symm

/-- An instance depends on what it binds to. -/
theorem mem_bind_iff (h : site.store.Settled) (hm : site.library ∈ site.store.libraries)
    {target : Target} {weight : EdgeKind} :
    ⟨target, weight⟩ ∈ (site.bind seen found).dependences ↔ ∃ id, target = .unit id ∧
      site.store.Binds site.library seen found.statement.unit weight id := by
  have hsite : site.Registered := ⟨h.registry, hm⟩
  unfold bind
  cases found.statement.unit with
  | entity name architecture =>
    simp only [dependences_bindEntity, List.mem_map, Option.mem_toList, Dependence.mk.injEq]
    constructor
    · rintro ⟨entity, he, rfl, rfl⟩
      have hn := (hsite.findUnit?_iff rfl).mp he
      obtain ⟨_, _, hd⟩ := hn.declares
      exact ⟨_, rfl, .entity hn ((select_eq_iff h hd).mp rfl)⟩
    · rintro ⟨id, rfl, hb⟩
      cases hb with
      | entity hn hs =>
        obtain ⟨_, _, hd⟩ := hn.declares
        exact ⟨_, (hsite.findUnit?_iff rfl).mpr hn, by rw [(select_eq_iff h hd).mpr hs], rfl⟩
  | component name =>
    simp only [dependences_bindComponent, List.mem_map, Option.mem_toList, Dependence.mk.injEq,
      hsite.findComponent?_iff]
    constructor
    · rintro ⟨entity, ⟨ident, hi, he⟩, rfl, rfl⟩
      exact ⟨entity, rfl, .component hi he⟩
    · rintro ⟨id, rfl, hb⟩
      cases hb with
      | component hi he => exact ⟨id, ⟨_, hi, he⟩, rfl, rfl⟩
  | configuration name =>
    simp only [dependences_bindConfiguration, List.mem_flatMap, List.mem_cons, List.mem_map,
      Option.mem_toList, Dependence.mk.injEq]
    constructor
    · rintro ⟨configuration, hc, ⟨rfl, rfl⟩ | ⟨unit, hu, rfl, rfl⟩⟩
      · exact ⟨configuration, rfl, .configuration ((hsite.findUnit?_iff rfl).mp hc)⟩
      · have hn := (hsite.findUnit?_iff rfl).mp hc
        obtain ⟨_, _, hd⟩ := hn.declares
        obtain ⟨_, _, hx, ht, hs⟩ := (configuredUnit?_iff h hd).mp hu
        exact ⟨unit, rfl, .configured hn hx ht hs⟩
    · rintro ⟨id, rfl, hb⟩
      cases hb with
      | configuration hn => exact ⟨id, (hsite.findUnit?_iff rfl).mpr hn, .inl ⟨rfl, rfl⟩⟩
      | configured hn hx ht hs =>
        obtain ⟨_, _, hd⟩ := hn.declares
        exact ⟨_, (hsite.findUnit?_iff rfl).mpr hn,
          .inr ⟨id, (configuredUnit?_iff h hd).mpr ⟨_, _, hx, ht, hs⟩, rfl, rfl⟩⟩

theorem dependences_eq_nil_iff (h : site.store.Settled)
    (hm : site.library ∈ site.store.libraries) : (site.bind seen found).dependences = [] ↔
      site.store.Unbound site.library seen found.statement.unit := by
  rw [List.eq_nil_iff_forall_not_mem]
  constructor
  · intro hn kind id hb
    exact hn ⟨.unit id, kind⟩ ((mem_bind_iff h hm).mpr ⟨id, rfl, hb⟩)
  · rintro hn ⟨target, kind⟩ hd
    obtain ⟨id, _, hb⟩ := (mem_bind_iff h hm).mp hd
    exact hn kind id hb

end Site

def FoundInstance.unboundMessage (found : FoundInstance) : String :=
  match found.statement.unit with
  | .entity name _ =>
    "No entity '" ++ name.render ++ "' found for instance '" ++ found.path ++ "'"
  | .component name =>
    "Component '" ++ name.render ++ "' of instance '" ++ found.path ++
      "' is not bound to any entity"
  | .configuration name =>
    "No configuration '" ++ name.render ++ "' found for instance '" ++ found.path ++ "'"

/-- A binding is accounted for if it depends on something and is not reported as unbound, or if it
is the report that there is no binding. A missing architecture is another matter, for which the
entity stands in. -/
inductive Binding.Accounted (location : Location) (message : String) : Binding → Prop where
  | bound {binding : Binding} : binding.dependences ≠ [] →
      (∀ diagnostic ∈ binding.diagnostic, diagnostic.code ≠ .unboundComponent) →
      Accounted location message binding
  | unbound : Accounted location message
      { diagnostic := some (.ofCode location message .unboundComponent) }

theorem Binding.Accounted.silent {location : Location} {message : String} {binding : Binding}
    (hd : binding.dependences ≠ []) (hn : binding.diagnostic = none) :
    binding.Accounted location message := by
  refine .bound hd fun diagnostic hm => ?_
  rw [hn] at hm
  cases hm

theorem Site.accounted_bind (site : Site) (seen : Visibility) (found : FoundInstance) :
    (site.bind seen found).Accounted site.location found.unboundMessage := by
  unfold bind FoundInstance.unboundMessage
  cases found.statement.unit with
  | entity name architecture =>
    dsimp only
    unfold bindEntity
    cases site.findUnit? seen .entity name with
    | none => exact .unbound
    | some entity =>
      cases architecture with
      | none => exact .silent (List.cons_ne_nil _ _) rfl
      | some ident =>
        dsimp only
        cases site.findArchitecture? entity ident with
        | none =>
          refine .bound (List.cons_ne_nil _ _) ?_
          rintro _ ⟨⟩
          simp [Diagnostic.ofCode]
        | some architecture => exact .silent (List.cons_ne_nil _ _) rfl
  | component name =>
    dsimp only
    unfold bindComponent
    cases site.findComponent? seen name with
    | none => exact .unbound
    | some entity => exact .silent (List.cons_ne_nil _ _) rfl
  | configuration name =>
    dsimp only
    unfold bindConfiguration
    cases site.findUnit? seen .configuration name with
    | none => exact .unbound
    | some configuration => exact .silent (List.cons_ne_nil _ _) rfl

end Vhdl
