import Vhdl.Proofs.LinkErrors
import Vhdl.Proofs.Operations

/-! # The lifetime of links

A change drops the analysis of a design but not the links that it filled in. They stay until the
unit that holds them is changed or the design is analyzed again. No other links are ever found in a
design whose units are handed in without links, and none at all before its first analysis.
-/

namespace Vhdl

def ContextItem.Bare : ContextItem → Prop
  | .library names => ∀ name ∈ names, name.target = none
  | .use names | .context names => ∀ name ∈ names, name.target = none

namespace DesignUnit

variable {unit old first : DesignUnit}

def Bare (unit : DesignUnit) : Prop :=
  ∀ slot ∈ unit.slots, slot.2 = none

instance (unit : DesignUnit) : Decidable unit.Bare :=
  inferInstanceAs (Decidable (∀ slot ∈ unit.slots, slot.2 = none))

theorem bare_of_context (hc : ∀ item ∈ unit.context, item.Bare) (hu : unit.body.useNames = [])
    (hp : ∀ slot ∈ unit.body.primarySlot?, slot.2 = none) : unit.Bare := by
  intro slot hs
  simp only [slots, libraryNames, useNames, contextNames, hu, List.append_nil, List.mem_append,
    List.mem_map, List.mem_flatMap, Option.mem_toList] at hs
  rcases hs with ((⟨name, ⟨item, hi, hn⟩, rfl⟩ | ⟨name, ⟨item, hi, hn⟩, rfl⟩) |
    ⟨name, ⟨item, hi, hn⟩, rfl⟩) | hs
  · cases item with
    | library _ => exact hc _ hi name hn
    | use _ | context _ => cases hn
  · cases item with
    | use _ => exact hc _ hi name hn
    | library _ | context _ => cases hn
  · cases item with
    | context _ => exact hc _ hi name hn
    | library _ | use _ => cases hn
  · exact hp slot hs

/-- Every filled slot is one of the other unit. -/
def LinksAmong (unit old : DesignUnit) : Prop :=
  ∀ slot ∈ unit.slots, slot.2 = none ∨ slot ∈ old.slots

theorem LinksAmong.refl (unit : DesignUnit) : unit.LinksAmong unit :=
  fun _ hs => .inr hs

theorem LinksAmong.trans (h : unit.LinksAmong old) (h' : old.LinksAmong first) :
    unit.LinksAmong first := by
  intro slot hs
  rcases h slot hs with hn | ho
  · exact .inl hn
  · exact h' slot ho

theorem LinksAmong.bare (h : unit.LinksAmong old) (ho : old.Bare) : unit.Bare :=
  fun slot hs => (h slot hs).elim id (ho slot)

end DesignUnit

namespace Store

variable {store next last : Store} {changed others : List UnitId}

/-- Only the listed units differ, apart from new ones, and no link is there that was not there
before. -/
structure Inherits (changed : List UnitId) (store next : Store) : Prop where
  kept : ∀ id ∉ changed, ∀ unit, store.unit? id = some unit → next.unit? id = some unit
  links : ∀ id unit, next.unit? id = some unit →
    unit.Bare ∨ ∃ old, store.unit? id = some old ∧ unit.LinksAmong old

theorem Inherits.of_unit?_eq (h : next.unit? = store.unit?) : store.Inherits changed next := by
  refine ⟨fun id _ unit hu => h ▸ hu, fun id unit hu => .inr ⟨unit, h ▸ hu, .refl unit⟩⟩

theorem Inherits.trans (h : store.Inherits changed next) (h' : next.Inherits others last) :
    store.Inherits (others ++ changed) last where
  kept id hn unit hu := by
    rw [List.mem_append, not_or] at hn
    exact h'.kept id hn.1 unit (h.kept id hn.2 unit hu)
  links id unit hu := by
    rcases h'.links id unit hu with hl | ⟨old, ho, hl⟩
    · exact .inl hl
    · rcases h.links id old ho with hn | ⟨first, hf, hl'⟩
      · exact .inl (hl.bare hn)
      · exact .inr ⟨first, hf, hl.trans hl'⟩

theorem unit?_eq_some_iff {id : UnitId} {unit : DesignUnit} : store.unit? id = some unit ↔
    ∃ document, store.document? id.document = some document ∧
      document.units[id.index]? = some unit :=
  Option.bind_eq_some_iff

theorem inherits_createLibrary {name : String} {id : LibraryId}
    (h : store.createLibrary name = .ok (id, next)) : store.Inherits [] next := by
  obtain ⟨_, _, _, rfl⟩ := createLibrary_cases h
  exact .of_unit?_eq rfl

theorem inherits_addDocument {document : Document} {library : LibraryId} {id : DocumentId}
    (h : store.addDocument document library = .ok (id, next))
    (hn : ∀ unit ∈ document.units, unit.Bare) : store.Inherits [] next := by
  obtain ⟨_, _, _, _, _, _, rfl⟩ := addDocument_cases h
  constructor
  · intro id _ unit hu
    obtain ⟨old, ho, hu⟩ := unit?_eq_some_iff.mp hu
    exact unit?_eq_some_iff.mpr ⟨old, getElem?_concat_iff.mpr (.inl ho), hu⟩
  · intro id unit hu
    obtain ⟨old, ho, hu⟩ := unit?_eq_some_iff.mp hu
    rcases getElem?_concat_iff.mp ho with ho | ⟨_, rfl⟩
    · exact .inr ⟨unit, unit?_eq_some_iff.mpr ⟨old, ho, hu⟩, .refl unit⟩
    · exact .inl (hn unit (List.mem_of_getElem? hu))

theorem inherits_of_set {document : DocumentId} {old new : Document}
    (hd : store.document? document = some old)
    (he : next.documents = store.documents.set document.index new)
    (hk : ∀ index, ⟨document, index⟩ ∉ changed → ∀ unit, old.units[index]? = some unit →
      new.units[index]? = some unit)
    (hl : ∀ (index : Nat) (unit : DesignUnit), new.units[index]? = some unit →
      unit.Bare ∨ ∃ first, old.units[index]? = some first ∧ unit.LinksAmong first) :
    store.Inherits changed next := by
  have hlt : document.index < store.documents.length := (List.getElem?_eq_some_iff.mp hd).1
  have hsame : next.document? document = some new := by
    rw [document?, he, List.getElem?_set_self hlt]
  have hother : ∀ id ≠ document, next.document? id = store.document? id := by
    intro id hne
    have hi : document.index ≠ id.index := fun hx => hne (congrArg DocumentId.mk hx.symm)
    rw [document?, he, List.getElem?_set_ne hi, document?]
  constructor
  · rintro ⟨id, index⟩ hn unit hu
    obtain ⟨found, hf, hu⟩ := unit?_eq_some_iff.mp hu
    by_cases hid : id = document
    · subst hid
      cases hd.symm.trans hf
      exact unit?_eq_some_iff.mpr ⟨new, hsame, hk index hn unit hu⟩
    · exact unit?_eq_some_iff.mpr ⟨found, (hother id hid).trans hf, hu⟩
  · rintro ⟨id, index⟩ unit hu
    obtain ⟨found, hf, hu⟩ := unit?_eq_some_iff.mp hu
    by_cases hid : id = document
    · subst hid
      cases hsame.symm.trans hf
      refine (hl index unit hu).imp_right ?_
      rintro ⟨first, ho, hf⟩
      exact ⟨first, unit?_eq_some_iff.mpr ⟨old, hd, ho⟩, hf⟩
    · refine .inr ⟨unit, unit?_eq_some_iff.mpr ⟨found, ?_, hu⟩, .refl unit⟩
      exact (hother id hid).symm.trans hf

theorem inherits_addUnit {document : DocumentId} {unit : DesignUnit} {id : UnitId}
    (h : store.addUnit document unit = .ok (id, next)) (hn : unit.Bare) :
    store.Inherits [] next := by
  obtain ⟨old, _, _, hd, _, _, _, _, rfl⟩ := addUnit_cases h
  refine inherits_of_set hd rfl ?_ ?_
  · intro index _ other ho
    exact getElem?_concat_iff.mpr (.inl ho)
  · intro index other ho
    rcases getElem?_concat_iff.mp ho with ho | ⟨_, rfl⟩
    · exact .inr ⟨other, ho, .refl other⟩
    · exact .inl hn

theorem inherits_modifyUnit {id : UnitId} {modify : DesignUnit → DesignUnit}
    (h : store.modifyUnit id modify = .ok ((), next))
    (hl : ∀ unit, store.unit? id = some unit → (modify unit).LinksAmong unit) :
    store.Inherits [id] next := by
  obtain ⟨old, _, _, unit, hd, _, _, hu, _, new, rfl, hnext⟩ := modifyUnit_cases h
  have he : next.documents = store.documents.set id.document.index
      { old with units := old.units.set id.index (modify unit) } := by
    rcases hnext with ⟨_, rfl⟩ | ⟨_, rfl⟩ <;> rfl
  refine inherits_of_set hd he ?_ ?_
  · intro index hn other ho
    have hi : id.index ≠ index := by
      rintro rfl
      exact hn (List.mem_singleton.mpr rfl)
    rw [List.getElem?_set_ne hi, ho]
  · intro index other ho
    by_cases hi : id.index = index
    · subst hi
      rw [List.getElem?_set_self (List.getElem?_eq_some_iff.mp hu).1] at ho
      cases ho
      exact .inr ⟨unit, hu, hl unit (unit?_eq_some_iff.mpr ⟨old, hd, hu⟩)⟩
    · rw [List.getElem?_set_ne hi] at ho
      exact .inr ⟨other, ho, .refl other⟩

end Store

theorem PredefinedPackage.bare_document (package : PredefinedPackage) :
    ∀ unit ∈ package.document.units, unit.Bare := by
  have hcontext : ∀ item ∈ package.context, item.Bare := by
    intro item hi
    rcases List.mem_append.mp hi with hi | hi
    · split at hi
      · cases hi
      · obtain rfl := List.mem_singleton.mp hi
        simp [ContextItem.Bare]
    · obtain ⟨use, _, rfl⟩ := List.mem_map.mp hi
      simp [ContextItem.Bare]
  refine List.forall_mem_cons.mpr ⟨?_, fun unit hu => ?_⟩
  · exact DesignUnit.bare_of_context hcontext rfl (by simp [UnitBody.primarySlot?])
  · split at hu
    · obtain rfl := List.mem_singleton.mp hu
      exact DesignUnit.bare_of_context (by simp) rfl (by simp [UnitBody.primarySlot?])
    · cases hu

namespace Operation

/-- Units are handed in without links, and a change of a unit makes no link. -/
def Bare (design : Design) : Operation → Prop
  | .createLibrary _ | .getOrCreateLibrary _ => True
  | .addDocument document _ => ∀ unit ∈ document.units, unit.Bare
  | .addUnit _ unit => unit.Bare
  | .modifyUnit id modify => ∀ unit, design.store.unit? id = some unit →
      (modify unit).LinksAmong unit

def changed (design : Design) : Operation → List UnitId
  | .modifyUnit id modify => if (design.modifyUnit id modify).answer.isOk then [id] else []
  | _ => []

end Operation

namespace Design

variable {α β : Type} {design next last : Design} {latest : Option Store}
  {changed others : List UnitId}

/-- The next design inherits the links. It is the same one, or it has no analysis. -/
structure Retains (changed : List UnitId) (design next : Design) : Prop where
  inherits : design.store.Inherits changed next.store
  dropped : next = design ∨ next.analysis = none

theorem Retains.refl (design : Design) : design.Retains changed design :=
  ⟨.of_unit?_eq rfl, .inl rfl⟩

theorem Retains.trans (h : design.Retains changed next) (h' : next.Retains others last) :
    design.Retains (others ++ changed) last := by
  refine ⟨h.inherits.trans h'.inherits, ?_⟩
  rcases h'.dropped with rfl | hn
  · exact h.dropped
  · exact .inr hn

theorem retains_of_inherits {store : Store} (h : design.store.Inherits changed store) :
    design.Retains changed { store } :=
  ⟨h, .inr rfl⟩

theorem retains_andThen {step : Step α} {next : α → Design → Step β}
    (h : design.Retains [] step.design)
    (hn : ∀ answer design, Retains [] design (next answer design).design) :
    design.Retains [] (step.andThen next).design :=
  Step.andThen_inv h fun answer design hd => hd.trans (hn answer design)

theorem retains_createLibrary (design : Design) (name : String) :
    design.Retains [] (design.createLibrary name).design := by
  rw [createLibrary_eq]
  exact commit_inv (.refl design) fun _ _ hs =>
    retains_of_inherits (Store.inherits_createLibrary hs)

theorem retains_getOrCreateLibrary (design : Design) (name : String) :
    design.Retains [] (design.getOrCreateLibrary name).design := by
  unfold getOrCreateLibrary
  split
  · exact .refl design
  · exact design.retains_createLibrary name

theorem retains_addDocument (design : Design) {document : Document} (library : LibraryId)
    (hn : ∀ unit ∈ document.units, unit.Bare) :
    design.Retains [] (design.addDocument document library).design := by
  rw [addDocument_eq]
  exact commit_inv (.refl design) fun _ _ hs =>
    retains_of_inherits (Store.inherits_addDocument hs hn)

theorem retains_perform (hr : design.store.Registry) {operation : Operation}
    (h : operation.Bare design) :
    design.Retains (operation.changed design) (operation.perform design).design := by
  cases operation with
  | createLibrary name => exact design.retains_createLibrary name
  | getOrCreateLibrary name => exact design.retains_getOrCreateLibrary name
  | addDocument document library => exact design.retains_addDocument library h
  | addUnit document unit =>
    change design.Retains [] (design.addUnit document unit).design
    rw [addUnit_eq]
    exact commit_inv (.refl design) fun _ _ hs =>
      retains_of_inherits (Store.inherits_addUnit hs h)
  | modifyUnit id modify =>
    simp only [Operation.perform, Operation.changed, modifyUnit_eq hr]
    cases hs : design.store.modifyUnit id modify with
    | error diagnostic => exact .refl design
    | ok result => exact retains_of_inherits (Store.inherits_modifyUnit hs h)

theorem retains_addDocuments (design : Design) (library : LibraryId) {documents : List Document}
    (hn : ∀ document ∈ documents, ∀ unit ∈ document.units, unit.Bare) :
    design.Retains [] (design.addDocuments library documents).design := by
  induction documents generalizing design with
  | nil => exact .refl design
  | cons document rest ih =>
    rw [List.forall_mem_cons] at hn
    exact retains_andThen (design.retains_addDocument library hn.1) fun _ other => ih other hn.2

theorem retains_loadPredefined (design : Design) (name : String)
    (packages : List PredefinedPackage) :
    design.Retains [] (design.loadPredefined name packages).design := by
  unfold loadPredefined
  split
  · exact .refl design
  · refine retains_andThen (design.retains_getOrCreateLibrary name) fun id other => ?_
    refine retains_andThen (other.retains_addDocuments id ?_) fun _ => .refl
    intro document hd
    obtain ⟨package, _, rfl⟩ := List.mem_map.mp hd
    exact package.bare_document

theorem retains_setConfig (design : Design) (config : Config) :
    design.Retains [] (design.setConfig config).design :=
  ⟨.of_unit?_eq rfl, .inr rfl⟩

theorem retains_loadIeee (design : Design) : design.Retains [] design.loadIeee.design :=
  retains_andThen (design.retains_loadPredefined ..) fun _ other => other.retains_loadPredefined ..

/-- A run of operations in which no link is handed in, with the store that the latest analysis left,
if there was one, and the units that were changed since then. -/
inductive Run : Design → Option Store → List UnitId → Prop where
  | start (config : Config) : Run (withConfig config) none []
  | setConfig {design : Design} {latest : Option Store} {changed : List UnitId} (config : Config) :
      Run design latest changed → Run (design.setConfig config).design latest changed
  | perform {design : Design} {latest : Option Store} {changed : List UnitId}
      (operation : Operation) : operation.Bare design → Run design latest changed →
      Run (operation.perform design).design latest (operation.changed design ++ changed)
  | loadStd {design : Design} {latest : Option Store} {changed : List UnitId} :
      Run design latest changed → Run design.loadStd.design latest changed
  | loadIeee {design : Design} {latest : Option Store} {changed : List UnitId} :
      Run design latest changed → Run design.loadIeee.design latest changed
  | analyze {design : Design} {latest : Option Store} {changed : List UnitId} :
      Run design latest changed → Run design.analyze.design (some design.analyze.design.store) []

/-- The links come from the latest analysis, or from a store without units if there was none. An
analysis that is still there is the latest one. -/
structure LinksFrom (latest : Option Store) (changed : List UnitId) (design : Design) : Prop where
  inherits : (latest.getD {}).Inherits changed design.store
  analyzed : design.analysis ≠ none → latest = some design.store

theorem LinksFrom.retains (h : design.LinksFrom latest changed) (hr : design.Retains others next) :
    next.LinksFrom latest (others ++ changed) := by
  refine ⟨h.inherits.trans hr.inherits, fun hn => ?_⟩
  rcases hr.dropped with rfl | hd
  · exact h.analyzed hn
  · exact absurd hd hn

theorem Run.reachable (h : design.Run latest changed) : design.Reachable := by
  induction h with
  | start config => exact .start config
  | setConfig config _ ih => exact .setConfig config ih
  | perform operation _ _ ih => exact ih.perform operation
  | loadStd _ ih => exact .loadStd ih
  | loadIeee _ ih => exact .loadIeee ih
  | analyze _ ih => exact .analyze ih

theorem Run.linksFrom (h : design.Run latest changed) : design.LinksFrom latest changed := by
  induction h with
  | start config => exact ⟨.of_unit?_eq rfl, fun hn => absurd rfl hn⟩
  | setConfig config _ ih => exact (ih.retains (retains_setConfig _ config) :)
  | perform operation hb hd ih =>
    exact ih.retains (retains_perform hd.reachable.grounded.built.registry hb)
  | loadStd _ ih => exact (ih.retains (retains_loadPredefined ..) :)
  | loadIeee _ ih => exact (ih.retains (retains_loadIeee _) :)
  -- An analysis starts over, because the store that it leaves is the latest one.
  | analyze _ _ => exact ⟨.of_unit?_eq rfl, fun _ => rfl⟩

/-- The links of a design are those of its latest analysis, whether the analysis is still there or
was dropped: a unit is as it was left by the latest analysis until it is changed, and a unit that is
new or changed has no other links. Without any analysis there are no links. -/
theorem Run.links_of_latest_analysis (h : design.Run latest changed) :
    (latest = none → ∀ id unit, design.store.unit? id = some unit → unit.Bare) ∧
    (∀ store, latest = some store → store.Inherits changed design.store) ∧
    (design.analysis ≠ none → latest = some design.store) := by
  refine ⟨?_, ?_, h.linksFrom.analyzed⟩
  · rintro rfl id unit hu
    rcases h.linksFrom.inherits.links id unit hu with hn | ⟨old, ho, _⟩
    · exact hn
    · cases ho
  · rintro store rfl
    exact h.linksFrom.inherits

def truck : Design :=
  let brake : Identifier := ⟨"brake", by decide +kernel⟩
  let entity : DesignUnit := { ident := brake, body := .entity none none [] [] }
  let architecture : DesignUnit :=
    { ident := ⟨"drum", by decide +kernel⟩, body := .architecture { item := brake } [] [] }
  let design := ((withConfig {}).createLibrary "truck").design
  (design.addDocument { units := [entity, architecture] } ⟨0⟩).design.analyze.design

def trailer : Design :=
  (truck.createLibrary "trailer").design

theorem run_truck : truck.Run (some truck.store) [] := by
  refine .analyze (.perform (.addDocument _ _) ?_ (.perform (.createLibrary _) trivial (.start {})))
  unfold Operation.Bare
  decide +kernel

theorem run_trailer : trailer.Run (some truck.store) [] :=
  .perform (.createLibrary _) trivial run_truck

/-- A new library drops the analysis, yet the architecture keeps its link. -/
theorem trailer_keeps_link : trailer.Run (some truck.store) [] ∧ trailer.analysis = none ∧
    ∃ unit, trailer.store.unit? ⟨⟨0⟩, 1⟩ = some unit ∧ ¬ unit.Bare := by
  have hn : trailer.analysis.isNone = true := by decide +kernel
  have hs : (trailer.store.unit? ⟨⟨0⟩, 1⟩).map DesignUnit.slots =
      some [(.entityImplementation, some (.unit ⟨⟨0⟩, 0⟩))] := by decide +kernel
  obtain ⟨unit, hu, hs⟩ := Option.map_eq_some_iff.mp hs
  refine ⟨run_trailer, Option.isNone_iff_eq_none.mp hn, unit, hu, fun hb => ?_⟩
  have := hb (.entityImplementation, some (.unit ⟨⟨0⟩, 0⟩)) (by simp [hs])
  cases this

def hitch : Design :=
  (trailer.modifyUnit ⟨⟨0⟩, 0⟩ ({ · with doc := some "Stops the wheels" })).design

theorem hitch_links : hitch.Run (some truck.store) [⟨⟨0⟩, 0⟩] ∧ hitch.analysis = none ∧
    truck.store.Inherits [⟨⟨0⟩, 0⟩] hitch.store ∧
    hitch.store.unit? ⟨⟨0⟩, 1⟩ = truck.store.unit? ⟨⟨0⟩, 1⟩ := by
  let operation : Operation :=
    .modifyUnit ⟨⟨0⟩, 0⟩ ({ · with doc := some "Stops the wheels" })
  have hb : operation.Bare trailer := fun unit _ => DesignUnit.LinksAmong.refl unit
  have hc : operation.changed trailer = [⟨⟨0⟩, 0⟩] := by decide +kernel
  have hr : hitch.Run (some truck.store) [⟨⟨0⟩, 0⟩] := hc ▸ run_trailer.perform operation hb
  have hn : hitch.analysis.isNone = true := by decide +kernel
  have hu : (truck.store.unit? ⟨⟨0⟩, 1⟩).isSome = true := by decide +kernel
  obtain ⟨unit, hu⟩ := Option.isSome_iff_exists.mp hu
  have hi := hr.links_of_latest_analysis.2.1 _ rfl
  exact ⟨hr, Option.isNone_iff_eq_none.mp hn, hi, (hi.kept _ (by decide) unit hu).trans hu.symm⟩

end Design

end Vhdl
