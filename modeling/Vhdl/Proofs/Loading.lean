import Mathlib.Logic.Relation
import Vhdl.Proofs.LoadOrder
import Vhdl.Proofs.Registration

/-! # Loading predefined libraries

A library without units takes all units of its packages, whatever else is in the design. A library
that has a unit has one in every later design, and loading it once more changes nothing.
-/

namespace Vhdl

namespace Store

variable {store next last : Store} {ident : Identifier} {library : LibraryId}
  {units : List DesignUnit}

def Named (store : Store) (ident : Identifier) (library : LibraryId) : Prop :=
  ∃ entry, store.library? library = some entry ∧ entry.ident.normalized = ident.normalized

def Carries (store : Store) (library : LibraryId) (units : List DesignUnit) : Prop :=
  ∀ unit, (∃ id, store.unitIn? library id = some unit) ↔ unit ∈ units

/-- The library has the name, and it has a unit. -/
structure Stocked (store : Store) (ident : Identifier) (library : LibraryId) : Prop where
  named : store.Named ident library
  unit : ∃ id unit, store.unitIn? library id = some unit

theorem Named.normalized_eq {i j : Identifier} (hi : store.Named i library)
    (hj : store.Named j library) : i.normalized = j.normalized := by
  obtain ⟨entry, hl, he⟩ := hi
  obtain ⟨_, hl', he'⟩ := hj
  cases hl.symm.trans hl'
  exact he.symm.trans he'

theorem Registry.findLibrary?_iff_named (h : store.Registry) :
    store.findLibrary? ident = some library ↔ store.Named ident library :=
  h.names ident.normalized library

theorem libraryNamed?_text (store : Store) (ident : Identifier) :
    store.libraryNamed? ident.text = store.findLibrary? ident := by
  rw [libraryNamed?, Identifier.check_eq_ok_iff.mpr rfl]

section Change

theorem library?_setLibrary_of_ident {owner : LibraryId} {old new entry : Library}
    (ho : store.library? owner = some old) (hn : new.ident = old.ident)
    (hl : store.library? library = some entry) :
    ∃ found, (store.setLibrary owner new).library? library = some found ∧
      found.ident = entry.ident := by
  rw [library?_setLibrary ho new]
  split
  · next he =>
    subst he
    cases ho.symm.trans hl
    exact ⟨new, rfl, hn⟩
  · exact ⟨entry, hl, rfl⟩

theorem Change.library? (hc : store.Change next) {entry : Library}
    (hl : store.library? library = some entry) :
    ∃ found, next.library? library = some found ∧ found.ident = entry.ident := by
  cases hc with
  | config _ => exact ⟨entry, hl, rfl⟩
  | createLibrary hc =>
    obtain ⟨_, _, rfl, rfl⟩ := createLibrary_cases hc
    exact ⟨entry, library?_createLibrary.mpr (.inl hl), rfl⟩
  | addDocument ha =>
    obtain ⟨old, _, ho, _, _, _, rfl⟩ := addDocument_cases ha
    exact library?_setLibrary_of_ident ho (insertUnits_id old _ _).2 hl
  | addUnit ha =>
    obtain ⟨_, _, old, _, _, ho, _, _, rfl⟩ := addUnit_cases ha
    exact library?_setLibrary_of_ident ho rfl hl
  | modifyUnit hm =>
    obtain ⟨_, _, old, _, _, _, ho, _, _, _, _, ⟨_, rfl⟩ | ⟨_, rfl⟩⟩ := modifyUnit_cases hm
    · exact ⟨entry, hl, rfl⟩
    · exact library?_setLibrary_of_ident ho rfl hl
  | analyze => exact ⟨entry, hl, rfl⟩

theorem Named.change (hn : store.Named ident library) (hc : store.Change next) :
    next.Named ident library := by
  obtain ⟨entry, hl, hn⟩ := hn
  obtain ⟨found, hf, hi⟩ := hc.library? hl
  exact ⟨found, hf, by rw [hi, hn]⟩

/-- A change may free a key, but never all of them. -/
theorem Registry.free_of_change (h : store.Registry) (hc : store.Change next)
    (hf : ∀ key, next.Free library key) (key : UnitKey) : store.Free library key := by
  cases hc with
  | config _ => exact hf key
  | createLibrary hc => exact (free_createLibrary_iff hc).mp (hf key)
  | addDocument ha => exact ((free_addDocument_iff ha).mp (hf key)).2
  | addUnit ha => exact ((free_addUnit_iff ha).mp (hf key)).2
  | modifyUnit hm =>
    rcases ((h.free_modifyUnit_iff hm).mp (hf key)).2 with hk | ⟨unit, hu, _⟩
    · exact hk
    · exact absurd ⟨unit, hu, rfl⟩ ((h.free_modifyUnit_iff hm).mp (hf _)).1
  | analyze =>
    intro id unit hu
    rw [← (filled_linkUnits (unit?_of_unitIn? hu)).2]
    refine hf key id _ ((unitIn?_fillSlots ..).trans ?_)
    rw [hu, Option.map_some]

theorem Stocked.change (hs : store.Stocked ident library) (h : store.Registry)
    (hc : store.Change next) : next.Stocked ident library := by
  refine ⟨hs.named.change hc, ?_⟩
  by_contra hn
  obtain ⟨id, unit, hu⟩ := hs.unit
  have hf : ∀ key, next.Free library key := fun _ id unit hu _ => hn ⟨id, unit, hu⟩
  exact h.free_of_change hc hf unit.key id unit hu rfl

theorem Registry.later (h : store.Registry) (hc : Relation.ReflTransGen Change store last) :
    last.Registry := by
  induction hc with
  | refl => exact h
  | tail _ hc ih => exact ih.change hc

theorem Named.later (hn : store.Named ident library)
    (hc : Relation.ReflTransGen Change store last) : last.Named ident library := by
  induction hc with
  | refl => exact hn
  | tail _ hc ih => exact ih.change hc

theorem Stocked.later (hs : store.Stocked ident library) (h : store.Registry)
    (hc : Relation.ReflTransGen Change store last) : last.Stocked ident library := by
  induction hc with
  | refl => exact hs
  | tail hx hc ih => exact ih.change (h.later hx) hc

end Change

section Carries

theorem Carries.of_documents (hc : store.Carries library units)
    (hd : next.documents = store.documents) : next.Carries library units := by
  intro unit
  rw [← hc unit, exists_unitIn?_iff, exists_unitIn?_iff, hd]

theorem Carries.addDocument (hc : store.Carries library units) {document : Document}
    {owner : LibraryId} {id : DocumentId}
    (ha : store.addDocument document owner = .ok (id, next)) :
    next.Carries library (if owner = library then units ++ document.units else units) := by
  obtain ⟨_, _, _, _, _, _, rfl⟩ := addDocument_cases ha
  intro unit
  have hold := hc unit
  rw [exists_unitIn?_iff] at hold ⊢
  simp only [List.mem_append, List.mem_singleton, or_and_right, exists_or, exists_eq_left,
    Option.some.injEq]
  split <;> next he => simp [he, hold]

theorem Carries.free (hc : store.Carries library units) {key : UnitKey}
    (hk : key ∉ units.map DesignUnit.key) : store.Free library key := by
  intro id unit hu he
  exact hk (List.mem_map.mpr ⟨unit, (hc unit).mp ⟨id, hu⟩, he⟩)

/-- If no library of a name has a unit, then neither has one that gets the name later. -/
theorem Registry.carries_nil (h : store.Registry) (hs : ∀ library, ¬ store.Stocked ident library)
    (hc : Relation.ReflTransGen Change store last) (hn : last.Named ident library) :
    store.Carries library [] := by
  refine fun unit => iff_of_false (fun ⟨id, hu⟩ => ?_) List.not_mem_nil
  obtain ⟨entry, hl⟩ := h.exists_holder hu
  have hname : store.Named entry.ident library := ⟨entry, hl, rfl⟩
  exact hs library ⟨⟨entry, hl, (hname.later hc).normalized_eq hn⟩, id, unit, hu⟩

end Carries

end Store

namespace Design

variable {design : Design} {ident : Identifier} {library other : LibraryId}
  {units : List DesignUnit} {packages : List PredefinedPackage}

/-- The second design is a later one: its store comes from the first one by changes. -/
def Precedes (design later : Design) : Prop :=
  Relation.ReflTransGen Store.Change design.store later.store

theorem precedes_getOrCreateLibrary (design : Design) (name : String) :
    design.Precedes (design.getOrCreateLibrary name).design := by
  unfold getOrCreateLibrary
  split
  · exact .refl
  · rw [createLibrary_eq]
    exact commit_inv (P := design.Precedes) .refl fun _ _ hc => .single (.createLibrary hc)

theorem precedes_addDocument (design : Design) (document : Document) (library : LibraryId) :
    design.Precedes (design.addDocument document library).design := by
  rw [addDocument_eq]
  exact commit_inv (P := design.Precedes) .refl fun _ _ ha => .single (.addDocument ha)

theorem precedes_addDocuments (design : Design) (library : LibraryId)
    (documents : List Document) :
    design.Precedes (design.addDocuments library documents).design := by
  induction documents generalizing design with
  | nil => exact .refl
  | cons document rest ih =>
    exact Step.andThen_inv (design.precedes_addDocument document library)
      fun _ next hp => hp.trans (ih next)

theorem precedes_loadPredefined (design : Design) (name : String)
    (packages : List PredefinedPackage) :
    design.Precedes (design.loadPredefined name packages).design := by
  unfold loadPredefined
  split
  · exact .refl
  · refine Step.andThen_inv (design.precedes_getOrCreateLibrary name) fun id next hp => ?_
    exact Step.andThen_inv (hp.trans (next.precedes_addDocuments id _)) fun _ _ hp => hp

theorem loaded?_eq_some_iff (h : design.store.Registry) :
    design.loaded? ident.text = some library ↔ design.store.Stocked ident library := by
  rw [loaded?, Option.filter_eq_some_iff, Store.libraryNamed?_text, h.findLibrary?_iff_named]
  have hunits : ∀ entry, design.store.library? library = some entry →
      (0 < entry.numUnits ↔ ∃ id unit, design.store.unitIn? library id = some unit) := by
    intro entry hl
    rw [Library.numUnits, Table.size, List.length_pos_iff_exists_mem]
    simp only [← (h.holds library entry hl).mem_values_iff, Table.values, List.mem_map]
    constructor
    · rintro ⟨found, hm⟩
      exact ⟨_, found, hm, rfl⟩
    · rintro ⟨_, found, hm, _⟩
      exact ⟨found, hm⟩
  constructor
  · rintro ⟨hn, hu⟩
    obtain ⟨entry, hl, _⟩ := id hn
    refine ⟨hn, (hunits entry hl).mp ?_⟩
    simpa [hl] using hu
  · rintro ⟨hn, hu⟩
    obtain ⟨entry, hl, _⟩ := id hn
    refine ⟨hn, ?_⟩
    simpa [hl] using (hunits entry hl).mpr hu

theorem loaded?_eq_none_iff (h : design.store.Registry) :
    design.loaded? ident.text = none ↔ ∀ library, ¬ design.store.Stocked ident library := by
  simp only [Option.eq_none_iff_forall_ne_some, ne_eq, loaded?_eq_some_iff h]

theorem loadPredefined_of_stocked (h : design.store.Registry)
    (hs : design.store.Stocked ident library) (packages : List PredefinedPackage) :
    (design.loadPredefined ident.text packages).answer = .ok library ∧
      (design.loadPredefined ident.text packages).design = design := by
  unfold loadPredefined
  rw [(loaded?_eq_some_iff h).mpr hs]
  exact ⟨rfl, rfl⟩

theorem documents_getOrCreateLibrary (design : Design) (name : String) :
    (design.getOrCreateLibrary name).design.store.documents = design.store.documents := by
  unfold getOrCreateLibrary
  split
  · rfl
  · rw [createLibrary_eq]
    refine commit_inv (P := fun next => next.store.documents = _) rfl fun _ _ hc => ?_
    obtain ⟨_, _, _, rfl⟩ := Store.createLibrary_cases hc
    rfl

theorem getOrCreateLibrary_named (h : design.store.Registry) (hw : ident.normalized ≠ "work") :
    ∃ library, (design.getOrCreateLibrary ident.text).answer = .ok library ∧
      (design.getOrCreateLibrary ident.text).design.store.Named ident library := by
  unfold getOrCreateLibrary
  rw [Store.libraryNamed?_text]
  cases hf : design.store.findLibrary? ident with
  | some library => exact ⟨library, rfl, h.findLibrary?_iff_named.mp hf⟩
  | none =>
    have hn : ∀ entry ∈ design.store.libraries, entry.ident.normalized ≠ ident.normalized := by
      rw [← h.findLibrary?_bind_eq_none_iff, hf, Option.bind_none]
    obtain ⟨⟨library, next⟩, hc⟩ := h.createLibrary_ok_iff.mpr ⟨ident, rfl, hw, hn⟩
    obtain ⟨rfl, rfl⟩ := Store.createLibrary_text_cases hc
    simp only [createLibrary_eq, commit_of_ok hc]
    exact ⟨_, rfl, _, Store.library?_createLibrary.mpr (.inr ⟨rfl, rfl⟩), rfl⟩

theorem addDocument_of_ok {document : Document} {id : DocumentId} {store : Store}
    (ha : design.store.addDocument document library = .ok (id, store)) :
    (design.addDocument document library).answer = .ok id ∧
      (design.addDocument document library).design.store = store := by
  rw [addDocument_eq, commit_of_ok ha]
  exact ⟨rfl, rfl⟩

/-- Documents without paths find room in a library if their units have new keys. -/
theorem addDocuments_accepted (documents : List Document) (h : design.store.Registry)
    (hl : ∃ entry, design.store.library? library = some entry)
    (hc : design.store.Carries library units) (hp : ∀ document ∈ documents, document.path = none)
    (hn : ((units ++ documents.flatMap Document.units).map DesignUnit.key).Nodup) :
    (design.addDocuments library documents).Accepted ∧
      (design.addDocuments library documents).design.store.Carries library
        (units ++ documents.flatMap Document.units) := by
  induction documents generalizing design units with
  | nil => exact ⟨⟨(), rfl⟩, (List.append_nil units).symm ▸ hc⟩
  | cons document rest ih =>
    obtain ⟨hpath, hp⟩ := List.forall_mem_cons.mp hp
    rw [List.flatMap_cons, ← List.append_assoc] at hn ⊢
    have hkeys : ((units ++ document.units).map DesignUnit.key).Nodup := by
      rw [List.map_append] at hn
      exact (List.nodup_append.mp hn).1
    obtain ⟨_, hdistinct, hnew⟩ := List.nodup_append.mp (List.map_append ▸ hkeys)
    have hmay : design.store.MayAdd document library := by
      refine ⟨hl, by simp [hpath], hdistinct, fun unit hu => hc.free fun hk => ?_⟩
      exact hnew _ hk _ (List.mem_map_of_mem hu) rfl
    obtain ⟨⟨id, next⟩, ha⟩ := h.addDocument_ok_iff.mpr hmay
    obtain ⟨hanswer, rfl⟩ := addDocument_of_ok ha
    have hcarries := hc.addDocument ha
    rw [if_pos rfl] at hcarries
    obtain ⟨entry, hl⟩ := hl
    obtain ⟨found, hf, _⟩ := Store.Change.library? (.addDocument ha) hl
    obtain ⟨hrest, hc⟩ := ih (h.addDocument ha) ⟨found, hf⟩ hcarries hp hn
    refine ⟨Step.accepted_andThen_iff.mpr ⟨id, hanswer, hrest⟩, ?_⟩
    rw [addDocuments, Step.design_andThen hanswer]
    exact hc

theorem carries_addDocuments (hc : design.store.Carries other units) (hne : library ≠ other)
    (documents : List Document) :
    (design.addDocuments library documents).design.store.Carries other units := by
  induction documents generalizing design with
  | nil => exact hc
  | cons document rest ih =>
    refine Step.andThen_inv (P := fun next => next.store.Carries other units) ?_ fun _ _ => ih
    rw [addDocument_eq]
    refine commit_inv (P := fun next => next.store.Carries other units) hc fun _ _ ha => ?_
    have hnext := hc.addDocument ha
    rwa [if_neg hne] at hnext

theorem loadPredefined_of_unstocked (h : design.store.Registry) (hw : ident.normalized ≠ "work")
    (hs : ∀ library, ¬ design.store.Stocked ident library)
    (hn : ((packages.flatMap (·.document.units)).map DesignUnit.key).Nodup) :
    ∃ library, (design.loadPredefined ident.text packages).answer = .ok library ∧
      (design.loadPredefined ident.text packages).design.store.Named ident library ∧
      (design.loadPredefined ident.text packages).design.store.Carries library
        (packages.flatMap (·.document.units)) ∧
      ∀ other units, library ≠ other → design.store.Carries other units →
        (design.loadPredefined ident.text packages).design.store.Carries other units := by
  obtain ⟨library, hanswer, hnamed⟩ := getOrCreateLibrary_named h hw
  have hchanges := design.precedes_getOrCreateLibrary ident.text
  have hdocuments := design.documents_getOrCreateLibrary ident.text
  have hempty := (h.carries_nil hs hchanges hnamed).of_documents hdocuments
  obtain ⟨entry, hl, _⟩ := id hnamed
  have hunits : (packages.map PredefinedPackage.document).flatMap Document.units =
      packages.flatMap (·.document.units) := List.flatMap_map ..
  rw [← hunits] at hn ⊢
  obtain ⟨⟨⟨⟩, hdone⟩, hcarries⟩ := addDocuments_accepted (packages.map PredefinedPackage.document)
    (h.later hchanges) ⟨entry, hl⟩ hempty (by simp [PredefinedPackage.document]) hn
  have hadded := (design.getOrCreateLibrary ident.text).design.precedes_addDocuments library
    (packages.map PredefinedPackage.document)
  unfold loadPredefined
  rw [(loaded?_eq_none_iff h).mpr hs]
  dsimp only
  rw [Step.answer_andThen hanswer, Step.answer_andThen hdone, Step.design_andThen hanswer,
    Step.design_andThen hdone]
  refine ⟨library, rfl, hnamed.later hadded, hcarries, ?_⟩
  intro other units hne hc
  exact carries_addDocuments (hc.of_documents hdocuments) hne _

end Design

end Vhdl
