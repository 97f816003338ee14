import Vhdl.Proofs.Freshness
import Vhdl.Proofs.Operations
import Vhdl.Proofs.Visibility

/-! # What names denote

Every link that an analysis leaves in a unit is to something that the name it is attached to
denotes. Whatever is visible under a name is denoted by it, and every clause preserves this.
-/

namespace Vhdl

namespace Store

/-- In a unit of the library `own` the name `work` denotes that library, and every other name
denotes the library that bears it. -/
def Denotes (store : Store) (own : Library) (name : String) (id : LibraryId) : Prop :=
  if name = "work" then id = own.id
  else ∃ library ∈ store.libraries, library.id = id ∧ library.ident.normalized = name

/-- The library has a unit of that kind and name under the handle. -/
def Declares (store : Store) (library : LibraryId) (kind : UnitKind) (name : String)
    (id : UnitId) : Prop :=
  ∃ unit, store.unitIn? library id = some unit ∧ unit.kind = kind ∧ unit.ident.normalized = name

/-- What a library name followed by the name of a unit denotes. -/
inductive SelectedDenotes (store : Store) (own : Library) (kind : UnitKind) :
    List Identifier → Target → Prop where
  | mk {libraryName ident : Identifier} {library : LibraryId} {id : UnitId} :
      store.Denotes own libraryName.normalized library →
      store.Declares library kind ident.normalized id →
      SelectedDenotes store own kind [libraryName, ident] (.unit id)

/-- What the segments of a use name may denote. -/
inductive UseDenotes (store : Store) (own : Library) : List Identifier → Target → Prop where
  | library {first : Identifier} {id : LibraryId} :
      store.Denotes own first.normalized id → UseDenotes store own [first] (.library id)
  | package {first package : Identifier} {rest : List Identifier} {target : Target} :
      store.SelectedDenotes own .package [first, package] target →
      UseDenotes store own (first :: package :: rest) target
  | visible {first : Identifier} {rest : List Identifier} {library : LibraryId} {id : UnitId} :
      store.Declares library .package first.normalized id →
      UseDenotes store own (first :: rest) (.unit id)

inductive EntityDenotes (store : Store) (own : Library) : List Identifier → Target → Prop where
  | simple {ident : Identifier} {id : UnitId} :
      store.Declares own.id .entity ident.normalized id → EntityDenotes store own [ident] (.unit id)
  | selected {segments : List Identifier} {target : Target} :
      store.SelectedDenotes own .entity segments target → EntityDenotes store own segments target

def LibraryLink (store : Store) (own : Library) (name : Linked Identifier) : Prop :=
  ∀ target ∈ name.target, ∃ id, target = .library id ∧ store.Denotes own name.item.normalized id

def UseLink (store : Store) (own : Library) (name : Linked Name) : Prop :=
  ∀ target ∈ name.target, ∃ segments all, name.item.segments? = some (segments, all) ∧
    store.UseDenotes own segments target

def ContextLink (store : Store) (own : Library) (name : Linked Name) : Prop :=
  ∀ target ∈ name.target, ∃ segments, name.item.segments? = some (segments, false) ∧
    store.SelectedDenotes own .context segments target

def EntityLink (store : Store) (own : Library) (name : Linked Name) : Prop :=
  ∀ target ∈ name.target, ∃ segments, name.item.segments? = some (segments, false) ∧
    store.EntityDenotes own segments target

/-- The link of a secondary unit is to the primary unit of that kind and name in its library. There
is a link if there is such a unit. -/
def OwnerLink (store : Store) (own : Library) (kind : UnitKind) (name : String)
    (link : Option Target) : Prop :=
  ∀ target, link = some target ↔ ∃ id, target = .unit id ∧ store.Declares own.id kind name id

/-- Each link of the unit is to what its name denotes. -/
structure LinksSound (store : Store) (own : Library) (unit : DesignUnit) : Prop where
  libraries : ∀ name ∈ unit.libraryNames, store.LibraryLink own name
  uses : ∀ name ∈ unit.useNames, store.UseLink own name
  contexts : ∀ name ∈ unit.contextNames, store.ContextLink own name
  architecture : ∀ entity decls statements, unit.body = .architecture entity decls statements →
    store.OwnerLink own .entity entity.item.normalized entity.target
  packageBody : ∀ package decls, unit.body = .packageBody package decls →
    store.OwnerLink own .package unit.ident.normalized package
  configuration : ∀ entity uses block, unit.body = .configuration entity uses block →
    store.EntityLink own entity

end Store

theorem DesignUnit.key_eq_primary_iff {unit : DesignUnit} {name : String} :
    unit.key = .primary name ↔ unit.kind.isPrimary = true ∧ unit.ident.normalized = name := by
  obtain ⟨ident, context, body, doc⟩ := unit
  cases body <;> simp [key, kind, UnitBody.kind, UnitKind.isPrimary]

namespace Store

variable {store : Store} {own library : Library} {id : UnitId} {kind : UnitKind}

theorem kindOf?_eq_of_unitIn? {owner : LibraryId} {unit : DesignUnit}
    (hu : store.unitIn? owner id = some unit) : store.kindOf? id = some unit.kind := by
  rw [kindOf?, unit?_of_unitIn? hu, Option.map_some]

theorem Registry.primaryOfKind?_iff (h : store.Registry) (hm : library ∈ store.libraries)
    (hk : kind.isPrimary = true) {ident : Identifier} :
    store.primaryOfKind? library ident kind = some id ↔
      store.Declares library.id kind ident.normalized id := by
  rw [primaryOfKind?, Option.filter_eq_some_iff, (h.holds_mem hm).get?_iff, decide_eq_true_iff]
  constructor
  · rintro ⟨⟨unit, hu, hkey⟩, hkind⟩
    rw [kindOf?_eq_of_unitIn? hu] at hkind
    exact ⟨unit, hu, Option.some.inj hkind, (DesignUnit.key_eq_primary_iff.mp hkey).2⟩
  · rintro ⟨unit, hu, rfl, hn⟩
    exact ⟨⟨unit, hu, DesignUnit.key_eq_primary_iff.mpr ⟨hk, hn⟩⟩, kindOf?_eq_of_unitIn? hu⟩

end Store

/-- Whatever is visible under a name is denoted by it. The name `work` is visible from the start, so
no library clause adds it. -/
structure Visibility.Sound (store : Store) (own : Library) (v : Visibility) : Prop where
  work : (v.library? "work").isSome
  libraries : ∀ entry ∈ v.libraries, store.Denotes own entry.name entry.id ∧
    (entry.explicit = true → entry.name ≠ "work")
  packages : ∀ entry ∈ v.packages, ∃ library, store.Declares library .package entry.1 entry.2

namespace Visibility

variable {store : Store} {own other : Library} {v w : Visibility}

theorem Sound.denotes (h : v.Sound store own) {name : String} {id : LibraryId}
    (hl : v.library? name = some id) : store.Denotes own name id := by
  obtain ⟨entry, hf, rfl⟩ := Option.map_eq_some_iff.mp hl
  obtain rfl : entry.name = name := by simpa using List.find?_some hf
  exact (h.libraries entry (List.mem_of_find?_eq_some hf)).1

theorem Sound.declares (h : v.Sound store own) {name : String} {id : UnitId}
    (hp : v.package? name = some id) : ∃ library, store.Declares library .package name id := by
  obtain ⟨entry, hf, rfl⟩ := Option.map_eq_some_iff.mp hp
  obtain rfl : entry.1 = name := by simpa using List.find?_some hf
  exact h.packages entry (List.mem_of_find?_eq_some hf)

theorem mem_addLibrary {entry added : VisibleLibrary}
    (h : entry ∈ (v.addLibrary added).libraries) :
    entry ∈ v.libraries ∨ entry = added ∧ ¬ (v.library? added.name).isSome := by
  unfold addLibrary at h
  split at h
  · exact .inl h
  · next hn =>
    rcases List.mem_append.mp h with h | h
    · exact .inl h
    · exact .inr ⟨List.mem_singleton.mp h, hn⟩

theorem packages_addLibrary (v : Visibility) (entry : VisibleLibrary) :
    (v.addLibrary entry).packages = v.packages := by
  unfold addLibrary
  split <;> rfl

theorem Sound.addLibrary (h : v.Sound store own) {entry : VisibleLibrary}
    (hd : store.Denotes own entry.name entry.id) : (v.addLibrary entry).Sound store own where
  work := (within_addLibrary v entry).libraries "work" h.work
  libraries other ho := by
    rcases mem_addLibrary ho with ho | ⟨rfl, hn⟩
    · exact h.libraries other ho
    · exact ⟨hd, fun _ he => hn (he ▸ h.work)⟩
  packages := packages_addLibrary v entry ▸ h.packages

theorem Sound.addPackage (h : v.Sound store own) {entry : String × UnitId}
    (hd : ∃ library, store.Declares library .package entry.1 entry.2) :
    (v.addPackage entry).Sound store own := by
  unfold Visibility.addPackage
  split
  · exact h
  · refine ⟨h.work, h.libraries, fun other ho => ?_⟩
    rcases List.mem_append.mp ho with ho | ho
    · exact h.packages other ho
    · obtain rfl := List.mem_singleton.mp ho
      exact hd

theorem foldl_inv {β : Type} {f : Visibility → β → Visibility} {P : Visibility → Prop}
    {xs : List β} (hf : ∀ v, P v → ∀ x ∈ xs, P (f v x)) (h : P v) : P (xs.foldl f v) := by
  induction xs generalizing v with
  | nil => exact h
  | cons x xs ih =>
    exact ih (fun v hv y hy => hf v hv y (List.mem_cons_of_mem x hy)) (hf v h x (by simp))

/-- Other names than `work` denote the same everywhere, and no other names are exported. -/
theorem Sound.merge (h : v.Sound store own) (h' : w.Sound store other) :
    (v.merge w).Sound store own := by
  refine foldl_inv (fun v hv entry he => hv.addPackage (h'.packages entry he)) ?_
  refine foldl_inv (fun v hv entry he => hv.addLibrary ?_) h
  obtain ⟨hm, hx⟩ := List.mem_filter.mp he
  obtain ⟨hd, hw⟩ := h'.libraries entry hm
  unfold Store.Denotes at hd ⊢
  rw [if_neg (hw hx)] at hd ⊢
  exact hd

theorem sound_implicit (h : store.Registry) (hm : own ∈ store.libraries) :
    (implicit store own).Sound store own := by
  have hname : store.Denotes own own.ident.normalized own.id := by
    unfold Store.Denotes
    split
    · rfl
    · exact ⟨own, hm, rfl, rfl⟩
  have hown : Sound store own ((({} : Visibility).addLibrary
      ⟨own.ident.normalized, own.id, false⟩).addLibrary ⟨"work", own.id, false⟩) := by
    refine ⟨(isSome_library?_addLibrary ..).mpr (.inr rfl), fun entry he => ?_, fun entry he => ?_⟩
    · rcases mem_addLibrary he with he | ⟨rfl, _⟩
      · rcases mem_addLibrary he with he | ⟨rfl, _⟩
        · exact absurd he List.not_mem_nil
        · exact ⟨hname, nofun⟩
      · exact ⟨by rw [Store.Denotes, if_pos rfl], nofun⟩
    · rw [packages_addLibrary, packages_addLibrary] at he
      exact absurd he List.not_mem_nil
  unfold implicit
  split
  · next id hs =>
    refine hown.addLibrary ?_
    obtain ⟨⟨_, valid⟩, rfl, hf⟩ := Store.libraryNamed?_eq_some_iff.mp hs
    have hstd : ∀ valid, (⟨"std", valid⟩ : Identifier).normalized = "std" := by decide +kernel
    obtain ⟨library, hl, hn⟩ := (h.names _ id).mp hf
    obtain ⟨hm, rfl⟩ := h.library?_iff.mp hl
    have hne : "std" ≠ "work" := by decide
    rw [Store.Denotes, if_neg hne]
    exact ⟨library, hm, rfl, hn.trans (hstd valid)⟩
  · exact hown

end Visibility

namespace Site

variable {site : Site} {v : Visibility}

structure Registered (site : Site) : Prop where
  registry : site.store.Registry
  library : site.library ∈ site.store.libraries

theorem Registered.denotes_of_resolveLibrary (h : site.Registered) {ident : Identifier}
    {id : LibraryId} (hr : site.resolveLibrary ident = .ok id) :
    site.store.Denotes site.library ident.normalized id := by
  unfold resolveLibrary at hr
  unfold Store.Denotes
  split at hr
  · next hw =>
    rw [if_pos hw]
    exact (Except.ok.inj hr).symm
  · next hw =>
    rw [if_neg hw]
    split at hr
    · next other hf =>
      obtain rfl := Except.ok.inj hr
      obtain ⟨library, hl, hn⟩ := (h.registry.names _ _).mp hf
      obtain ⟨hm, hi⟩ := h.registry.library?_iff.mp hl
      exact ⟨library, hm, hi, hn⟩
    · cases hr

theorem Registered.selected_of_resolvePrimary (h : site.Registered)
    (hv : v.Sound site.store site.library) {kind : UnitKind} {libraryName ident : Identifier}
    {id : UnitId} (hr : site.resolvePrimary v kind libraryName ident = .ok id) :
    site.store.SelectedDenotes site.library kind [libraryName, ident] (.unit id) := by
  unfold resolvePrimary at hr
  split at hr
  · cases hr
  · next library hb =>
    obtain ⟨owner, hs, hl⟩ := Option.bind_eq_some_iff.mp hb
    split at hr
    · cases hr
    · next found hg =>
      split at hr
      · next hk =>
        obtain rfl := Except.ok.inj hr
        obtain ⟨unit, hu, hkey⟩ := ((h.registry.holds owner library hl).get?_iff _ _).mp hg
        rw [Store.kindOf?_eq_of_unitIn? hu] at hk
        exact .mk (hv.denotes hs)
          ⟨unit, hu, Option.some.inj hk, (DesignUnit.key_eq_primary_iff.mp hkey).2⟩
      · cases hr

/-- A use name is resolved as the name of a visible library, as that of a package in a visible
library, or by a package that is visible already. -/
theorem resolveUse_cases {name : Name} {target : Target}
    (hr : site.resolveUse v name = .ok target) :
    ∃ first rest all, name.segments? = some (first :: rest, all) ∧
      ((∃ library, rest = [] ∧ v.library? first.normalized = some library ∧
          target = .library library) ∨
        (∃ package tail id, rest = package :: tail ∧
          site.resolvePrimary v .package first package = .ok id ∧ target = .unit id) ∨
        ∃ id, v.package? first.normalized = some id ∧ target = .unit id) := by
  unfold resolveUse at hr
  split at hr
  · next first rest all hs =>
    refine ⟨first, rest, all, hs, ?_⟩
    split at hr
    · next library hl =>
      cases rest with
      | nil => exact .inl ⟨library, rfl, hl, (Except.ok.inj hr).symm⟩
      | cons package rest =>
        dsimp only at hr
        cases hp : site.resolvePrimary v .package first package with
        | error diagnostic =>
          rw [hp] at hr
          cases hr
        | ok id =>
          rw [hp] at hr
          exact .inr (.inl ⟨package, rest, id, rfl, hp, (Except.ok.inj hr).symm⟩)
    · split at hr
      · next package hp => exact .inr (.inr ⟨package, hp, (Except.ok.inj hr).symm⟩)
      · cases hr
  · cases hr

theorem Registered.useDenotes_of_resolveUse (h : site.Registered)
    (hv : v.Sound site.store site.library) {name : Name} {target : Target}
    (hr : site.resolveUse v name = .ok target) :
    ∃ segments all, name.segments? = some (segments, all) ∧
      site.store.UseDenotes site.library segments target := by
  obtain ⟨first, rest, all, hs, hcases⟩ := resolveUse_cases hr
  refine ⟨first :: rest, all, hs, ?_⟩
  rcases hcases with ⟨library, rfl, hl, rfl⟩ | ⟨package, tail, id, rfl, hp, rfl⟩ | ⟨id, hp, rfl⟩
  · exact .library (hv.denotes hl)
  · exact .package (h.selected_of_resolvePrimary hv hp)
  · obtain ⟨library, hd⟩ := hv.declares hp
    exact .visible hd

theorem Registered.selected_of_resolveContext (h : site.Registered)
    (hv : v.Sound site.store site.library) {name : Name} {id : UnitId}
    (hr : site.resolveContext v name = .ok id) :
    ∃ segments, name.segments? = some (segments, false) ∧
      site.store.SelectedDenotes site.library .context segments (.unit id) := by
  unfold resolveContext at hr
  split at hr
  · next library ident hs => exact ⟨_, hs, h.selected_of_resolvePrimary hv hr⟩
  · cases hr

theorem Registered.entityDenotes_of_resolveEntity (h : site.Registered)
    (hv : v.Sound site.store site.library) {name : Name} {id : UnitId}
    (hr : site.resolveEntity v name = .ok id) :
    ∃ segments, name.segments? = some (segments, false) ∧
      site.store.EntityDenotes site.library segments (.unit id) := by
  unfold resolveEntity at hr
  split at hr
  · next ident hs =>
    split at hr
    · next found hp =>
      obtain rfl := Except.ok.inj hr
      exact ⟨_, hs, .simple ((h.registry.primaryOfKind?_iff h.library rfl).mp hp)⟩
    · cases hr
  · next library ident hs => exact ⟨_, hs, .selected (h.selected_of_resolvePrimary hv hr)⟩
  · cases hr

theorem map_attempt_eq_some_iff {attempt : Except Diagnostic UnitId} {target : Target} :
    (attemptUnit? (some attempt)).map Target.unit = some target ↔
      ∃ id, target = .unit id ∧ attempt = .ok id := by
  cases attempt with
  | error diagnostic => simp [attemptUnit?, Except.toOption]
  | ok id => simp [attemptUnit?, Except.toOption, eq_comm]

theorem Registered.entityLink (h : site.Registered) (hv : v.Sound site.store site.library)
    (name : Name) : site.store.EntityLink site.library
      ⟨name, (attemptUnit? (some (site.resolveEntity v name))).map Target.unit⟩ := by
  intro target ht
  obtain ⟨id, rfl, hr⟩ := map_attempt_eq_some_iff.mp ht
  exact h.entityDenotes_of_resolveEntity hv hr

theorem Registered.resolveOwner_iff (h : site.Registered) {kind expected : UnitKind}
    (hk : expected = if kind = .packageBody then .package else .entity) {ident : Identifier}
    {id : UnitId} : site.resolveOwner kind ident = .ok id ↔
      site.store.Declares site.library.id expected ident.normalized id := by
  have hp : expected.isPrimary = true := by
    subst hk
    split <;> rfl
  rw [← h.registry.primaryOfKind?_iff h.library hp]
  unfold resolveOwner
  have he : (if kind = .packageBody then (UnitKind.package, ErrorCode.unresolvedPackageBody)
      else (.entity, .unresolvedArchitecture)).1 = expected := by
    subst hk
    split <;> rfl
  dsimp only
  rw [he]
  cases site.store.primaryOfKind? site.library ident expected with
  | none => simp
  | some found => simp

theorem Registered.ownerLink (h : site.Registered) (kind : UnitKind) {expected : UnitKind}
    (hk : expected = if kind = .packageBody then .package else .entity) (ident : Identifier) :
    site.store.OwnerLink site.library expected ident.normalized
      ((attemptUnit? (some (site.resolveOwner kind ident)) <|> none).map Target.unit) := by
  intro target
  have hnone : ∀ x : Option UnitId, (x <|> none) = x := fun x => by cases x <;> rfl
  rw [hnone, map_attempt_eq_some_iff]
  exact exists_congr fun id => and_congr_right fun _ => h.resolveOwner_iff hk

def soundLinks (site : Site) : NameRel where
  library name _ := site.store.LibraryLink site.library name
  use name _ := site.store.UseLink site.library name
  context name _ := site.store.ContextLink site.library name

variable {s : ClauseState}

theorem Registered.linkLibrary (h : site.Registered) (name : Linked Identifier)
    (hs : s.visibility.Sound site.store site.library) :
    site.store.LibraryLink site.library (site.linkLibrary s name).1 ∧
      (site.linkLibrary s name).2.visibility.Sound site.store site.library := by
  unfold Site.linkLibrary
  split
  · next id hr =>
    have hd := h.denotes_of_resolveLibrary hr
    refine ⟨?_, hs.addLibrary hd⟩
    rintro _ ⟨⟩
    exact ⟨id, rfl, hd⟩
  · exact ⟨nofun, hs⟩

theorem sound_usePackage (hv : v.Sound site.store site.library)
    {segments : List Identifier} {target : Target}
    (hu : site.store.UseDenotes site.library segments target) :
    (site.usePackage v target).Sound site.store site.library := by
  have hadd : ∀ library name id, site.store.Declares library .package name id →
      (site.usePackage v (.unit id)).Sound site.store site.library := by
    rintro library name id ⟨unit, hunit, hk, hn⟩
    simp only [Site.usePackage, Store.unit?_of_unitIn? hunit]
    exact hv.addPackage ⟨library, unit, hunit, hk, rfl⟩
  cases hu with
  | library _ => exact hv
  | package hp =>
    cases hp with
    | mk _ hd => exact hadd _ _ _ hd
  | visible hd => exact hadd _ _ _ hd

theorem Registered.linkUse (h : site.Registered) (name : Linked Name)
    (hs : s.visibility.Sound site.store site.library) :
    site.store.UseLink site.library (site.linkUse s name).1 ∧
      (site.linkUse s name).2.visibility.Sound site.store site.library := by
  unfold Site.linkUse
  split
  · next target hr =>
    obtain ⟨segments, all, hn, hu⟩ := h.useDenotes_of_resolveUse hs hr
    refine ⟨?_, sound_usePackage hs hu⟩
    rintro _ ⟨⟩
    exact ⟨segments, all, hn, hu⟩
  · exact ⟨nofun, hs⟩

theorem Registered.linkContext (h : site.Registered) {f : UnitId → ClauseState → ClauseState}
    (hf : ∀ id s, Visibility.Sound site.store site.library s.visibility →
      (f id s).visibility.Sound site.store site.library) (name : Linked Name)
    (hs : s.visibility.Sound site.store site.library) :
    site.store.ContextLink site.library (site.linkContext f s name).1 ∧
      (site.linkContext f s name).2.visibility.Sound site.store site.library := by
  have hs : (site.reportContextReference s name.item).visibility.Sound site.store
      site.library := by
    unfold reportContextReference
    split <;> exact hs
  unfold Site.linkContext
  dsimp only
  split
  · next id hr =>
    refine ⟨?_, hf id _ hs⟩
    rintro _ ⟨⟩
    exact h.selected_of_resolveContext hs hr
  · exact ⟨nofun, hs⟩

theorem Registered.linkClauses (h : site.Registered) {f : UnitId → ClauseState → ClauseState}
    (hf : ∀ id s, Visibility.Sound site.store site.library s.visibility →
      (f id s).visibility.Sound site.store site.library)
    (hs : s.visibility.Sound site.store site.library) (unit : DesignUnit)
    (primary : Option Target) :
    ((site.linkClauses f s unit).1.withPrimary primary).Rel site.soundLinks (fun _ _ => True)
        ((site.linkClauses f s unit).1.withPrimary primary) ∧
      (site.linkClauses f s unit).2.visibility.Sound site.store site.library :=
  linkClauses_rel₂ (Q := fun s _ => s.visibility.Sound site.store site.library)
    (fun _ _ name _ hs _ => h.linkLibrary name hs) (fun _ _ name _ hs _ => h.linkUse name hs)
    (fun _ _ name _ hs _ => h.linkContext hf name hs) trivial (.refl unit) hs

end Site

namespace Store

variable {store : Store} {library : Library} {id : UnitId} {unit : DesignUnit}

theorem Registry.sound_importContext (h : store.Registry) {own : Library} (depth : Nat)
    (id : UnitId) {s : ClauseState} (hs : s.visibility.Sound store own) :
    (store.importContext depth id s).visibility.Sound store own := by
  induction depth generalizing own id s with
  | zero => exact hs
  | succ depth ih =>
    unfold importContext
    split
    · exact hs
    · dsimp only
      split
      · exact hs
      · next library document unit hr =>
        obtain ⟨_, _, ⟨owner, _, hl⟩, _⟩ := registered?_eq_some_iff.mp hr
        have hm := (h.library?_iff.mp hl).1
        have hsite : Site.Registered ⟨store, library, store.locationOf id⟩ := ⟨h, hm⟩
        exact hs.merge (hsite.linkClauses (fun id _ hs => ih id hs)
          (Visibility.sound_implicit h hm) unit none).2

theorem Registry.sound_linkClauses (h : store.Registry) (hm : library ∈ store.libraries)
    (location : Location) {v : Visibility} (hv : v.Sound store library) (unit : DesignUnit)
    (primary : Option Target) :
    ((store.linkClauses ⟨store, library, location⟩ v unit).1.withPrimary primary).Rel
        (Site.soundLinks ⟨store, library, location⟩) (fun _ _ => True)
        ((store.linkClauses ⟨store, library, location⟩ v unit).1.withPrimary primary) ∧
      (store.linkClauses ⟨store, library, location⟩ v unit).2.visibility.Sound store library :=
  have hsite : Site.Registered ⟨store, library, location⟩ := ⟨h, hm⟩
  hsite.linkClauses (s := { visibility := v })
    (fun id _ hs => h.sound_importContext _ id hs) hv unit primary

theorem Registry.sound_inherited (h : store.Registry) (hm : library ∈ store.libraries)
    (location : Location) (owner : Option UnitId) :
    (Site.inherited ⟨store, library, location⟩ owner).Sound store library := by
  have hi := Visibility.sound_implicit h hm
  unfold Site.inherited
  dsimp only
  split
  · next primary _ => exact (h.sound_linkClauses hm location hi primary none).2
  · exact hi

theorem forall_of_forall₂ {α : Type} {P : α → Prop} {xs ys : List α}
    (h : List.Forall₂ (fun x _ => P x) xs ys) : ∀ x ∈ xs, P x := by
  induction h with
  | nil => exact nofun
  | cons hx _ ih => exact List.forall_mem_cons.mpr ⟨hx, ih⟩

theorem Registry.linksSound_linkUnit (h : store.Registry) (hm : library ∈ store.libraries)
    (id : UnitId) (unit : DesignUnit) :
    store.LinksSound library (store.linkUnit library id unit).unit := by
  have hsite : Site.Registered ⟨store, library, store.locationOf id⟩ := ⟨h, hm⟩
  have hv := h.sound_inherited hm (store.locationOf id)
    (attemptUnit? (Site.owner? ⟨store, library, store.locationOf id⟩ unit))
  have hlinked := fun primary => (h.sound_linkClauses hm (store.locationOf id) hv unit primary).1
  have hseen := (h.sound_linkClauses hm (store.locationOf id) hv unit none).2
  refine ⟨forall_of_forall₂ (hlinked _).libraryNames, forall_of_forall₂ (hlinked _).useNames,
    forall_of_forall₂ (hlinked _).contextNames, fun entity decls statements hb => ?_,
    fun package decls hb => ?_, fun entity uses block hb => ?_⟩
  · obtain ⟨ident, context, body, doc⟩ := unit
    cases body with
    | architecture owner =>
      cases hb
      exact hsite.ownerLink .architecture rfl owner.item
    | _ => cases hb
  · obtain ⟨ident, context, body, doc⟩ := unit
    cases body with
    | packageBody owner =>
      cases hb
      exact hsite.ownerLink .packageBody rfl ident
    | _ => cases hb
  · obtain ⟨ident, context, body, doc⟩ := unit
    cases body with
    | configuration owner =>
      cases hb
      exact hsite.entityLink hseen owner.item
    | _ => cases hb

theorem Registry.find?_linkUnits (h : store.Registry) (hm : library ∈ store.libraries)
    (hu : store.unitIn? library.id id = some unit) :
    store.linkUnits.find? (·.id = id) = some (store.linkUnit library id unit) := by
  have hlisted := ((h.holds_mem hm).mem_kind unit.kind id).mpr ⟨unit, hu, rfl⟩
  have hmem : store.linkUnit library id unit ∈ store.linkUnits :=
    mem_linkUnits_iff.mpr ⟨library, hm, unit.kind, by cases unit.kind <;> decide, id, hlisted, unit,
      unit?_of_unitIn? hu, rfl⟩
  cases hf : store.linkUnits.find? (·.id = id) with
  | none =>
    have hne := List.find?_eq_none.mp hf _ hmem
    exact absurd (decide_eq_true rfl) hne
  | some linked =>
    obtain ⟨other, ho, kind, _, id', hk, unit', hu', rfl⟩ :=
      mem_linkUnits_iff.mp (List.mem_of_find?_eq_some hf)
    obtain rfl : id' = id := by simpa [linkUnit] using List.find?_some hf
    obtain ⟨unit'', hi, _⟩ := ((h.holds_mem ho).mem_kind kind id').mp hk
    obtain ⟨rfl, rfl⟩ := h.library_unique ho hm hi hu
    cases hu'.symm.trans (unit?_of_unitIn? hu)
    rfl

theorem Registry.filled_linkUnits_eq (h : store.Registry) (hm : library ∈ store.libraries)
    (hu : store.unitIn? library.id id = some unit) :
    filled store.linkUnits id unit = (store.linkUnit library id unit).unit := by
  rw [filled, h.find?_linkUnits hm hu]

/-- The units of an analyzed store are their own links, so their links are sound. -/
theorem Registry.linksSound_analyze (h : store.Registry)
    (hm : library ∈ store.analyze.store.libraries)
    (hu : store.analyze.store.unitIn? library.id id = some unit) :
    store.analyze.store.LinksSound library unit := by
  have hfix : store.analyze.store.fillSlots store.analyze.store.linkUnits = store.analyze.store :=
    congrArg Analyzed.store store.analyze_analyze
  have hunit : unit = (store.analyze.store.linkUnit library id unit).unit := by
    have hf := unitIn?_fillSlots store.analyze.store store.analyze.store.linkUnits library.id id
    rw [hfix, hu, Option.map_some, h.analyze.filled_linkUnits_eq hm hu] at hf
    exact Option.some.inj hf
  rw [hunit]
  exact h.analyze.linksSound_linkUnit hm id unit

end Store

/-- Analysis changes nothing but links, and each link that it leaves in a unit is to what the name
denotes that it is attached to. -/
theorem Design.Reachable.links_sound {design : Design} (h : design.Reachable) :
    design.analyze.design.store.clearTargets = design.store.clearTargets ∧
      ∀ library ∈ design.analyze.design.store.libraries, ∀ id unit,
        design.analyze.design.store.unitIn? library.id id = some unit →
          design.analyze.design.store.LinksSound library unit :=
  ⟨design.store.clearTargets_fillSlots, fun _ hm _ _ hu =>
    h.grounded.built.registry.linksSound_analyze hm hu⟩

/-- A context, an entity that refers to it, and an architecture and a configuration of the entity. -/
def Design.latchUnits : List DesignUnit :=
  let work : Identifier := ⟨"WORK", by decide +kernel⟩
  let kit : Identifier := ⟨"kit", by decide +kernel⟩
  let tools : Identifier := ⟨"tools", by decide +kernel⟩
  let setup : Identifier := ⟨"setup", by decide +kernel⟩
  let latch : Identifier := ⟨"latch", by decide +kernel⟩
  let selected (first second : Identifier) : Linked Name :=
    { item := .selected (.simple first) second }
  [{ ident := tools, body := .package none [] },
    { ident := setup
      context := [.library [{ item := kit }], .use [selected kit tools]]
      body := .context },
    { ident := latch
      context := [.context [selected work setup], .library [{ item := work }],
        .use [{ item := .simple tools }, { item := .simple work }]]
      body := .entity none none [] [] },
    { ident := ⟨"gated", by decide +kernel⟩
      body := .architecture { item := latch } [.useClause [selected kit tools]] [] },
    { ident := ⟨"wiring", by decide +kernel⟩, body := .configuration (selected work latch) [] none }]

def Design.latches : Design :=
  let design := ((withConfig {}).createLibrary "lib").design
  let design := (design.createLibrary "kit").design
  let design := (design.addDocument { units := latchUnits.take 1 } ⟨1⟩).design
  (design.addDocument { units := latchUnits.drop 1 } ⟨0⟩).design

def DesignUnit.links (unit : DesignUnit) :
    List (Option Target) × List (Option Target) × List (Option Target) × Option Target :=
  (unit.libraryNames.map Linked.target, unit.useNames.map Linked.target,
    unit.contextNames.map Linked.target, unit.primaryTarget)

theorem Design.latches_sound : latches.Reachable ∧
    ((latches.analyze.design.store.units .all).map fun registered => registered.unit.links) =
      [([], [], [], none),
        ([some (.library ⟨1⟩)], [some (.unit ⟨⟨0⟩, 0⟩)], [], none),
        ([some (.library ⟨0⟩)], [some (.unit ⟨⟨0⟩, 0⟩), some (.library ⟨0⟩)],
          [some (.unit ⟨⟨1⟩, 0⟩)], none),
        ([], [some (.unit ⟨⟨0⟩, 0⟩)], [], some (.unit ⟨⟨1⟩, 1⟩)),
        ([], [], [], some (.unit ⟨⟨1⟩, 1⟩))] ∧
    latches.analyze.design.store.clearTargets = latches.store.clearTargets ∧
    ∀ library ∈ latches.analyze.design.store.libraries, ∀ id unit,
      latches.analyze.design.store.unitIn? library.id id = some unit →
        latches.analyze.design.store.LinksSound library unit :=
  have h : latches.Reachable :=
    .addDocument _ _ (.addDocument _ _ (.createLibrary _ (.createLibrary _ (.start _))))
  ⟨h, by decide +kernel, h.links_sound⟩

end Vhdl
