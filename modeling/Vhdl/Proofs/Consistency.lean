import Mathlib
import Vhdl.Proofs.Reachable

/-! # Consistency of the store

In every reachable design each unit stands exactly once in every index that is to list it and in no
other place, and the indexes list nothing else. The number of keys is therefore the number of units.
-/

namespace Vhdl

theorem DesignUnit.key_eq_architecture_iff {unit : DesignUnit} {entity name : String} :
    unit.key = .architecture entity name ↔ unit.kind = .architecture ∧
      unit.primaryName?.map Identifier.normalized = some entity ∧
      unit.ident.normalized = name := by
  obtain ⟨ident, context, body, doc⟩ := unit
  cases body <;> simp [key, kind, UnitBody.kind, primaryName?]

namespace Library

def Stores (library : Library) (id : UnitId) : Prop :=
  (∃ kind, id ∈ library.unitsOfKind kind) ∨ id ∈ library.byKey.values ∨
    ∃ entity, id ∈ library.architecturesOf entity

variable {library : Library} {units : UnitId → Option DesignUnit} {id : UnitId}

theorem Holds.mem_values_iff (h : library.Holds units) :
    id ∈ library.byKey.values ↔ ∃ unit, units id = some unit := by
  constructor
  · intro hm
    obtain ⟨⟨key, _⟩, he, rfl⟩ := List.mem_map.mp hm
    obtain ⟨unit, hu, _⟩ := (h.get?_iff key _).mp ((Table.mem_entries_iff h.nodup_keys).mp he)
    exact ⟨unit, hu⟩
  · rintro ⟨unit, hu⟩
    have he := (Table.mem_entries_iff h.nodup_keys).mpr ((h.get?_iff _ id).mpr ⟨unit, hu, rfl⟩)
    exact List.mem_map.mpr ⟨_, he, rfl⟩

theorem Holds.nodup_values (h : library.Holds units) : library.byKey.values.Nodup := by
  refine List.Nodup.map_on ?_ (List.Nodup.of_map _ h.nodup_keys)
  rintro ⟨key, id⟩ he ⟨key', _⟩ he' rfl
  obtain ⟨unit, hu, rfl⟩ := (h.get?_iff key _).mp ((Table.mem_entries_iff h.nodup_keys).mp he)
  obtain ⟨unit', hu', rfl⟩ := (h.get?_iff key' _).mp ((Table.mem_entries_iff h.nodup_keys).mp he')
  cases hu.symm.trans hu'
  rfl

theorem Holds.of_stores (h : library.Holds units) (hs : library.Stores id) :
    ∃ unit, units id = some unit := by
  rcases hs with ⟨kind, hm⟩ | hm | ⟨entity, hm⟩
  · obtain ⟨unit, hu, _⟩ := (h.mem_kind kind id).mp hm
    exact ⟨unit, hu⟩
  · exact h.mem_values_iff.mp hm
  · obtain ⟨unit, _, hu, _⟩ := (h.mem_entity entity id).mp hm
    exact ⟨unit, hu⟩

end Library

namespace Store

variable {store : Store} {id : UnitId}

theorem mem_unitIds_iff : id ∈ store.unitIds ↔ ∃ unit, store.unit? id = some unit := by
  simp only [unitIds, numberedDocuments, List.mem_flatMap, List.mem_map, List.mem_range, unit?,
    Option.bind_eq_some_iff]
  constructor
  · rintro ⟨_, ⟨⟨document, index⟩, hm, rfl⟩, position, hlt, rfl⟩
    have hd := List.mem_zipIdx_iff_getElem?.mp hm
    exact ⟨_, document, hd, List.getElem?_eq_getElem hlt⟩
  · rintro ⟨unit, document, hd, hu⟩
    have hm : (document, id.document.index) ∈ store.documents.zipIdx :=
      List.mem_zipIdx_iff_getElem?.mpr hd
    exact ⟨_, ⟨_, hm, rfl⟩, id.index, (List.getElem?_eq_some_iff.mp hu).1, rfl⟩

theorem nodup_unitIds (store : Store) : store.unitIds.Nodup := by
  refine List.nodup_flatMap.mpr ⟨?_, ?_⟩
  · rintro ⟨id, document⟩ _
    refine List.nodup_range.map fun a b he => ?_
    simpa using he
  · have hn : (store.documents.zipIdx.map Prod.snd).Nodup := by
      rw [List.zipIdx_map_snd]
      exact List.nodup_range'
    refine List.pairwise_map.mpr ((List.pairwise_map.mp hn).imp ?_)
    rintro ⟨a, i⟩ ⟨b, j⟩ hne id ha hb
    obtain ⟨_, _, rfl⟩ := List.mem_map.mp ha
    obtain ⟨_, _, he⟩ := List.mem_map.mp hb
    simp only [UnitId.mk.injEq, DocumentId.mk.injEq] at he
    exact hne he.1.symm

theorem length_unitIds (store : Store) :
    store.unitIds.length = (store.documents.map fun document => document.units.length).sum := by
  rw [unitIds, List.length_flatMap, numberedDocuments, List.map_map]
  conv_rhs => rw [← List.zipIdx_map_fst 0 store.documents, List.map_map]
  congr 2
  funext entry
  simp

theorem numUnits_eq_sum (store : Store) :
    store.numUnits = (store.libraries.map Library.numUnits).sum := by
  rw [numUnits, List.sum_eq_foldl, List.foldl_map]

theorem exists_library? {library : Library} (hm : library ∈ store.libraries) :
    ∃ owner, store.library? owner = some library := by
  obtain ⟨index, hl⟩ := List.mem_iff_getElem?.mp hm
  exact ⟨⟨index⟩, hl⟩

theorem Registry.library?_iff (h : store.Registry) {owner : LibraryId} {library : Library} :
    store.library? owner = some library ↔ library ∈ store.libraries ∧ library.id = owner := by
  constructor
  · exact fun hl => ⟨List.mem_of_getElem? hl, h.ids owner library hl⟩
  · rintro ⟨hm, rfl⟩
    obtain ⟨owner, hl⟩ := exists_library? hm
    rw [h.ids owner library hl, hl]

theorem Registry.holds_mem (h : store.Registry) {library : Library}
    (hm : library ∈ store.libraries) : library.Holds (store.unitIn? library.id) :=
  h.holds _ _ (h.library?_iff.mpr ⟨hm, rfl⟩)

theorem Registry.pairwise_id (h : store.Registry) :
    store.libraries.Pairwise fun a b => a.id ≠ b.id := by
  refine List.pairwise_iff_getElem.mpr fun i j hi hj hij he => ?_
  rw [h.ids ⟨i⟩ _ (List.getElem?_eq_getElem hi), h.ids ⟨j⟩ _ (List.getElem?_eq_getElem hj)] at he
  exact absurd (LibraryId.mk.inj he) (Nat.ne_of_lt hij)

theorem Registry.exists_unitIn? (h : store.Registry) {unit : DesignUnit}
    (hu : store.unit? id = some unit) : ∃ owner library, store.library? owner = some library ∧
      store.unitIn? owner id = some unit := by
  obtain ⟨document, hd, hu⟩ := Option.bind_eq_some_iff.mp hu
  obtain ⟨owner, library, hw, hl⟩ := h.owned document (List.mem_of_getElem? hd)
  exact ⟨owner, library, hl, unitIn?_eq_some_iff.mpr ⟨document, hd, hw, hu⟩⟩

/-- The number of keys in all libraries is the number of units in all documents. -/
theorem Registry.numUnits_eq (h : store.Registry) : store.numUnits = store.unitIds.length := by
  have hl : store.numUnits = (store.libraries.flatMap (·.byKey.values)).length := by
    rw [numUnits_eq_sum, List.length_flatMap]
    congr 1
    refine List.map_congr_left fun library _ => ?_
    simp [Library.numUnits, Table.size, Table.values]
  rw [hl]
  refine List.Perm.length_eq ((List.perm_ext_iff_of_nodup ?_ store.nodup_unitIds).mpr fun id => ?_)
  · refine List.nodup_flatMap.mpr ⟨fun library hm => (h.holds_mem hm).nodup_values, ?_⟩
    refine h.pairwise_id.imp_of_mem fun {a b} ha hb hne id hx hy => ?_
    obtain ⟨_, hu⟩ := (h.holds_mem ha).mem_values_iff.mp hx
    obtain ⟨_, hv⟩ := (h.holds_mem hb).mem_values_iff.mp hy
    exact hne (unitIn?_unique hu hv).1
  · rw [mem_unitIds_iff, List.mem_flatMap]
    constructor
    · rintro ⟨library, hm, hv⟩
      obtain ⟨unit, hu⟩ := (h.holds_mem hm).mem_values_iff.mp hv
      exact ⟨unit, unit?_of_unitIn? hu⟩
    · rintro ⟨unit, hu⟩
      obtain ⟨owner, library, hl, hi⟩ := h.exists_unitIn? hu
      exact ⟨library, List.mem_of_getElem? hl, (h.holds owner library hl).mem_values_iff.mpr ⟨_, hi⟩⟩

/-- A unit is found in the indexes of its library, and nowhere else. -/
structure Registered (store : Store) (library : Library) (id : UnitId) (unit : DesignUnit) :
    Prop where
  listed_once : (library.unitsOfKind unit.kind).count id = 1
  listed_only : ∀ other ∈ store.libraries, ∀ kind, id ∈ other.unitsOfKind kind →
    other = library ∧ kind = unit.kind
  found_iff : ∀ other ∈ store.libraries, ∀ key, other.get? key = some id ↔
    other = library ∧ key = unit.key
  implements_once : ∀ entity, unit.kind = .architecture → unit.primaryName? = some entity →
    (library.architecturesOf entity.normalized).count id = 1
  implements_only : ∀ other ∈ store.libraries, ∀ name, id ∈ other.architecturesOf name →
    other = library ∧ unit.kind = .architecture ∧
      ∃ entity, unit.primaryName? = some entity ∧ entity.normalized = name

/-- The table of names finds each library, documents belong to libraries and have distinct paths,
and the indexes of the libraries list the units of the documents. -/
structure Consistent (store : Store) : Prop where
  names : ∀ name id, store.libraryNames.get? name = some id ↔
    ∃ library ∈ store.libraries, library.id = id ∧ library.ident.normalized = name
  owned : ∀ document ∈ store.documents,
    ∃ library ∈ store.libraries, document.library = some library.id
  paths : store.documents.Pairwise fun a b => ∀ p ∈ a.path, ∀ q ∈ b.path, p.same q = false
  registered : ∀ library ∈ store.libraries, ∀ id unit, store.unitIn? library.id id = some unit →
    store.Registered library id unit
  stored : ∀ library ∈ store.libraries, ∀ id, library.Stores id →
    ∃ unit, store.unitIn? library.id id = some unit

theorem Registry.library_eq_of_id (h : store.Registry) {a b : Library} (ha : a ∈ store.libraries)
    (hb : b ∈ store.libraries) (he : a.id = b.id) : a = b := by
  have hl := h.library?_iff.mpr ⟨ha, he⟩
  exact Option.some.inj (hl.symm.trans (h.library?_iff.mpr ⟨hb, rfl⟩))

/-- No unit is in two libraries. -/
theorem Registry.library_unique (h : store.Registry) {a b : Library} (ha : a ∈ store.libraries)
    (hb : b ∈ store.libraries) {unit unit' : DesignUnit}
    (hu : store.unitIn? a.id id = some unit) (hv : store.unitIn? b.id id = some unit') :
    a = b ∧ unit = unit' := by
  obtain ⟨he, hx⟩ := unitIn?_unique hu hv
  exact ⟨h.library_eq_of_id ha hb he, hx⟩

theorem Registry.registered (h : store.Registry) {library : Library} {unit : DesignUnit}
    (hm : library ∈ store.libraries) (hu : store.unitIn? library.id id = some unit) :
    store.Registered library id unit := by
  have hh := h.holds_mem hm
  refine ⟨?_, fun other ho kind hk => ?_, fun other ho key => ?_, fun entity hk hp => ?_,
    fun other ho name hn => ?_⟩
  · exact List.count_eq_one_of_mem (hh.nodup_kind _) ((hh.mem_kind _ id).mpr ⟨unit, hu, rfl⟩)
  · obtain ⟨unit', hu', rfl⟩ := ((h.holds_mem ho).mem_kind kind id).mp hk
    obtain ⟨rfl, rfl⟩ := h.library_unique ho hm hu' hu
    exact ⟨rfl, rfl⟩
  · rw [(h.holds_mem ho).get?_iff]
    constructor
    · rintro ⟨unit', hu', rfl⟩
      obtain ⟨rfl, rfl⟩ := h.library_unique ho hm hu' hu
      exact ⟨rfl, rfl⟩
    · rintro ⟨rfl, rfl⟩
      exact ⟨unit, hu, rfl⟩
  · have hkey : unit.key = .architecture entity.normalized unit.ident.normalized :=
      DesignUnit.key_eq_architecture_iff.mpr ⟨hk, by rw [hp]; rfl, rfl⟩
    exact List.count_eq_one_of_mem (hh.nodup_entity _)
      ((hh.mem_entity _ id).mpr ⟨unit, _, hu, hkey⟩)
  · obtain ⟨unit', _, hu', hkey⟩ := ((h.holds_mem ho).mem_entity name id).mp hn
    obtain ⟨rfl, rfl⟩ := h.library_unique ho hm hu' hu
    obtain ⟨hk, hp, _⟩ := DesignUnit.key_eq_architecture_iff.mp hkey
    exact ⟨rfl, hk, Option.map_eq_some_iff.mp hp⟩

theorem Registry.consistent (h : store.Registry) : store.Consistent where
  names name id := by
    rw [h.names]
    simp only [h.library?_iff, and_assoc]
  owned document hd := by
    obtain ⟨owner, library, hw, hl⟩ := h.owned document hd
    obtain ⟨hm, rfl⟩ := h.library?_iff.mp hl
    exact ⟨library, hm, hw⟩
  paths := h.paths
  registered _ hm _ _ hu := h.registered hm hu
  stored _ hm _ hs := (h.holds_mem hm).of_stores hs

end Store

/-- The store of every reachable design is consistent, and it counts the units in its documents. -/
theorem Design.Reachable.store_consistent {design : Design} (h : design.Reachable) :
    design.store.Consistent ∧ design.store.numUnits =
      (design.store.documents.map fun document => document.units.length).sum := by
  have hr := h.grounded.built.registry
  exact ⟨hr.consistent, hr.numUnits_eq.trans design.store.length_unitIds⟩

/-- An entity with an architecture that was moved to an entity which does not exist. -/
def Design.movedArchitecture : Design :=
  let entity : Identifier := ⟨"counter", by decide +kernel⟩
  let units : List DesignUnit :=
    [{ ident := entity, body := .entity none none [] [] },
      { ident := ⟨"rtl", by decide +kernel⟩, body := .architecture { item := entity } [] [] }]
  let design := ((withConfig {}).createLibrary "lib").design
  let design := (design.addDocument { units } ⟨0⟩).design
  (design.modifyUnit ⟨⟨0⟩, 1⟩ (·.setEntity ⟨"timer", by decide +kernel⟩)).design

theorem Design.movedArchitecture_consistent :
    movedArchitecture.Reachable ∧
      (movedArchitecture.store.libraries.map (·.architecturesOf "timer") = [[⟨⟨0⟩, 1⟩]]) ∧
      movedArchitecture.store.Consistent ∧ movedArchitecture.store.numUnits =
        (movedArchitecture.store.documents.map fun document => document.units.length).sum :=
  have h : movedArchitecture.Reachable :=
    .modifyUnit _ _ (.addDocument _ _ (.createLibrary _ (.start _)))
  ⟨h, by decide +kernel, h.store_consistent⟩

end Vhdl
