import Mathlib.Logic.Function.Basic
import Vhdl.Library
import Vhdl.Proofs.Table

/-! # What a library holds

A library keeps each of its units in three indexes: the list of its kind, the table of keys, and for
an architecture the list of its entity. `Holds` says that the indexes agree with the units; it is
kept when a unit is registered, changed in place, or moved to another key.
-/

namespace Vhdl

variable {library : Library} {units : UnitId → Option DesignUnit} {id : UnitId}
  {unit changed : DesignUnit}

/-- The indexes of a library list exactly the given units, each one once. -/
structure Library.Holds (library : Library) (units : UnitId → Option DesignUnit) : Prop where
  mem_kind : ∀ kind id,
    id ∈ library.unitsOfKind kind ↔ ∃ unit, units id = some unit ∧ unit.kind = kind
  nodup_kind : ∀ kind, (library.unitsOfKind kind).Nodup
  get?_iff : ∀ key id, library.get? key = some id ↔ ∃ unit, units id = some unit ∧ unit.key = key
  nodup_keys : library.byKey.keys.Nodup
  mem_entity : ∀ entity id, id ∈ library.architecturesOf entity ↔
    ∃ unit name, units id = some unit ∧ unit.key = .architecture entity name
  nodup_entity : ∀ entity, (library.architecturesOf entity).Nodup

def UnitKey.isOf (entity : String) : UnitKey → Bool
  | .architecture owner _ => owner = entity
  | .primary _ | .packageBody _ => false

theorem UnitKey.isOf_iff {key : UnitKey} {entity : String} :
    key.isOf entity = true ↔ ∃ name, key = .architecture entity name := by
  cases key <;> simp [isOf]

namespace Library

section Entities

variable (byEntity : Table String (List UnitId)) (id other : UnitId) (key : UnitKey)
  (entity : String)

def changeEntity (change : List UnitId → List UnitId) (byEntity : Table String (List UnitId)) :
    UnitKey → Table String (List UnitId)
  | .architecture entity _ => byEntity.insert entity (change (byEntity.getD entity []))
  | _ => byEntity

theorem getD_changeEntity (change : List UnitId → List UnitId) :
    (changeEntity change byEntity key).getD entity [] =
      if key.isOf entity then change (byEntity.getD entity []) else byEntity.getD entity [] := by
  cases key with
  | architecture owner name =>
    rw [changeEntity, Table.getD_insert]
    by_cases h : owner = entity
    · simp [UnitKey.isOf, h]
    · simp [UnitKey.isOf, h, Ne.symm h]
  | primary | packageBody => rfl

theorem getD_appendToEntity : (appendToEntity byEntity id key).getD entity [] =
    if key.isOf entity then byEntity.getD entity [] ++ [id] else byEntity.getD entity [] := by
  rw [← getD_changeEntity byEntity key entity (· ++ [id])]
  cases key <;> rfl

theorem getD_removeFromEntity : (removeFromEntity byEntity id key).getD entity [] =
    if key.isOf entity then (byEntity.getD entity []).filter (· ≠ id)
    else byEntity.getD entity [] := by
  rw [← getD_changeEntity byEntity key entity (List.filter (· ≠ id))]
  cases key <;> rfl

theorem getD_placeInEntity : (placeInEntity byEntity id key).getD entity [] =
    if key.isOf entity then (byEntity.getD entity []).takeWhile (·.le id) ++
      id :: (byEntity.getD entity []).dropWhile (·.le id)
    else byEntity.getD entity [] := by
  rw [← getD_changeEntity byEntity key entity
    fun ids => ids.takeWhile (·.le id) ++ id :: ids.dropWhile (·.le id)]
  cases key <;> rfl

theorem mem_appendToEntity : other ∈ (appendToEntity byEntity id key).getD entity [] ↔
    other ∈ byEntity.getD entity [] ∨ other = id ∧ ∃ name, key = .architecture entity name := by
  rw [getD_appendToEntity, ← UnitKey.isOf_iff]
  split <;> simp [*]

theorem mem_removeFromEntity : other ∈ (removeFromEntity byEntity id key).getD entity [] ↔
    other ∈ byEntity.getD entity [] ∧ ¬ (other = id ∧ ∃ name, key = .architecture entity name) := by
  rw [getD_removeFromEntity, ← UnitKey.isOf_iff]
  split <;> simp [*]

theorem mem_placeInEntity : other ∈ (placeInEntity byEntity id key).getD entity [] ↔
    other ∈ byEntity.getD entity [] ∨ other = id ∧ ∃ name, key = .architecture entity name := by
  rw [getD_placeInEntity, ← UnitKey.isOf_iff]
  split
  · next h =>
    rw [List.perm_middle.mem_iff, List.takeWhile_append_dropWhile, List.mem_cons, or_comm]
    simp [h]
  · next h => simp [h]

variable {byEntity id key entity}

theorem nodup_appendToEntity (hn : (byEntity.getD entity []).Nodup)
    (hf : id ∉ byEntity.getD entity []) :
    ((appendToEntity byEntity id key).getD entity []).Nodup := by
  rw [getD_appendToEntity]
  split
  · rw [← List.concat_eq_append]
    exact hn.concat hf
  · exact hn

theorem nodup_removeFromEntity (hn : (byEntity.getD entity []).Nodup) :
    ((removeFromEntity byEntity id key).getD entity []).Nodup := by
  rw [getD_removeFromEntity]
  split
  · exact hn.filter _
  · exact hn

theorem nodup_placeInEntity (hn : (byEntity.getD entity []).Nodup)
    (hf : id ∉ byEntity.getD entity []) :
    ((placeInEntity byEntity id key).getD entity []).Nodup := by
  rw [getD_placeInEntity]
  split
  · rw [List.nodup_middle, List.takeWhile_append_dropWhile]
    exact List.nodup_cons.mpr ⟨hf, hn⟩
  · exact hn

end Entities

theorem unitsOfKind_insert (library : Library) (key : UnitKey) (kind other : UnitKind)
    (id : UnitId) : (library.insert key kind id).unitsOfKind other =
      if other = kind then library.unitsOfKind kind ++ [id] else library.unitsOfKind other :=
  Table.getD_insert ..

theorem get?_insert (library : Library) (key other : UnitKey) (kind : UnitKind) (id : UnitId) :
    (library.insert key kind id).get? other =
      if other = key then some id else library.get? other :=
  Table.get?_insert ..

theorem get?_rekey (library : Library) (old new key : UnitKey) (id : UnitId) :
    (library.rekey old new id).get? key =
      if key = new then some id else if key = old then none else library.get? key := by
  rw [get?, rekey, Table.get?_insert, Table.get?_erase]
  rfl

theorem contains_key_iff : library.byKey.contains unit.key = true ↔
    ∃ id, library.get? unit.key = some id :=
  Option.isSome_iff_exists

theorem vacantKey_eq_ok_iff {key : UnitKey} : library.vacantKey unit = .ok key ↔
    library.get? unit.key = none ∧ key = unit.key := by
  unfold vacantKey
  split
  · next h =>
    obtain ⟨id, hg⟩ := contains_key_iff.mp h
    simp [hg]
  · next h =>
    have hg : library.get? unit.key = none :=
      Option.eq_none_iff_forall_ne_some.mpr fun id hg => h (contains_key_iff.mpr ⟨id, hg⟩)
    simp [hg, eq_comm]

namespace Holds

theorem new (id : LibraryId) (ident : Identifier) :
    ({ id, ident } : Library).Holds fun _ => none where
  mem_kind kind id := by simp [unitsOfKind, Table.getD]
  nodup_kind kind := List.nodup_nil
  get?_iff key id := by simp [get?]
  nodup_keys := List.nodup_nil
  mem_entity entity id := by simp [architecturesOf, Table.getD]
  nodup_entity entity := List.nodup_nil

theorem congr {units' : UnitId → Option DesignUnit} (h : library.Holds units)
    (hk : ∀ id, (units' id).map DesignUnit.kind = (units id).map DesignUnit.kind)
    (hu : ∀ id, (units' id).map DesignUnit.key = (units id).map DesignUnit.key) :
    library.Holds units' where
  mem_kind kind id := by
    rw [h.mem_kind, ← Option.map_eq_some_iff, ← Option.map_eq_some_iff, hk]
  nodup_kind := h.nodup_kind
  get?_iff key id := by
    rw [h.get?_iff, ← Option.map_eq_some_iff, ← Option.map_eq_some_iff, hu]
  nodup_keys := h.nodup_keys
  mem_entity entity id := by
    rw [h.mem_entity, exists_comm]
    conv_rhs => rw [exists_comm]
    simp only [← Option.map_eq_some_iff, hu]
  nodup_entity := h.nodup_entity

theorem not_mem_kind (h : library.Holds units) (hf : units id = none) (kind : UnitKind) :
    id ∉ library.unitsOfKind kind := by
  intro hm
  obtain ⟨unit, hu, _⟩ := (h.mem_kind kind id).mp hm
  simp [hf] at hu

theorem not_mem_entity (h : library.Holds units) (hf : units id = none) (entity : String) :
    id ∉ library.architecturesOf entity := by
  intro hm
  obtain ⟨unit, name, hu, _⟩ := (h.mem_entity entity id).mp hm
  simp [hf] at hu

theorem insert (h : library.Holds units) (hf : units id = none)
    (hv : library.get? unit.key = none) :
    (library.insert unit.key unit.kind id).Holds (Function.update units id (some unit)) where
  mem_kind kind other := by
    rw [unitsOfKind_insert]
    by_cases ho : other = id
    · subst ho
      have hm := h.not_mem_kind hf kind
      by_cases hk : kind = unit.kind
      · subst hk
        simp
      · simp [hk, hm, Ne.symm hk]
    · rw [Function.update_of_ne ho, ← h.mem_kind]
      split
      · next hk => simp [hk, ho]
      · rfl
  nodup_kind kind := by
    rw [unitsOfKind_insert]
    split
    · rw [← List.concat_eq_append]
      exact (h.nodup_kind unit.kind).concat (h.not_mem_kind hf unit.kind)
    · exact h.nodup_kind kind
  get?_iff key other := by
    rw [get?_insert]
    by_cases ho : other = id
    · subst ho
      have hg : library.get? key ≠ some other := by
        rw [ne_eq, h.get?_iff]
        simp [hf]
      by_cases hk : key = unit.key
      · simp [hk]
      · simp [hk, hg, Ne.symm hk]
    · rw [Function.update_of_ne ho, ← h.get?_iff]
      split
      · next hk =>
        subst hk
        simp [hv, Ne.symm ho]
      · rfl
  nodup_keys := Table.nodup_keys_insert h.nodup_keys ..
  mem_entity entity other := by
    refine (mem_appendToEntity ..).trans ?_
    by_cases ho : other = id
    · subst ho
      have hm := h.not_mem_entity hf entity
      simp only [architecturesOf] at hm
      simp [hm]
    · have hm := h.mem_entity entity other
      simp only [architecturesOf] at hm
      simp [hm, ho]
  nodup_entity entity := nodup_appendToEntity (h.nodup_entity entity) (h.not_mem_entity hf entity)

/-- Move a unit that keeps its kind to a vacant key. -/
theorem rekey (h : library.Holds units) (hu : units id = some unit)
    (hk : changed.kind = unit.kind) (hv : library.get? changed.key = none) :
    (library.rekey unit.key changed.key id).Holds (Function.update units id (some changed)) where
  mem_kind kind other := by
    refine (h.mem_kind kind other).trans ?_
    by_cases ho : other = id
    · subst ho
      simp [hu, hk]
    · rw [Function.update_of_ne ho]
  nodup_kind := h.nodup_kind
  get?_iff key other := by
    rw [get?_rekey]
    by_cases hc : key = changed.key
    · subst hc
      by_cases ho : other = id
      · simp [ho]
      · have hg : library.get? changed.key ≠ some other := by simp [hv]
        rw [ne_eq, h.get?_iff] at hg
        simp [ho, Ne.symm ho, hg]
    · rw [if_neg hc]
      by_cases ho : other = id
      · subst ho
        have hg : library.get? key = some other ↔ unit.key = key := by simp [h.get?_iff, hu]
        have hn : (if key = unit.key then none else library.get? key) ≠ some other := by
          split
          · simp
          · next hn => exact fun he => hn (hg.mp he).symm
        simp [hn, Ne.symm hc]
      · rw [Function.update_of_ne ho, ← h.get?_iff]
        split
        · next hn =>
          have hg : library.get? key = some id := (h.get?_iff key id).mpr ⟨unit, hu, hn.symm⟩
          simp [hg, Ne.symm ho]
        · rfl
  nodup_keys := Table.nodup_keys_insert (Table.nodup_keys_erase h.nodup_keys _) ..
  mem_entity entity other := by
    refine (mem_placeInEntity ..).trans ?_
    rw [mem_removeFromEntity]
    have hm := h.mem_entity entity other
    simp only [architecturesOf] at hm
    by_cases ho : other = id
    · subst ho
      simp only [hm, hu, Function.update_self, Option.some.injEq, true_and, exists_eq_left',
        exists_and_left]
      tauto
    · simp [hm, ho]
  nodup_entity entity := by
    refine nodup_placeInEntity (nodup_removeFromEntity (h.nodup_entity entity)) ?_
    rw [mem_removeFromEntity]
    rintro ⟨hm, hn⟩
    obtain ⟨unit', name, hu', hn'⟩ := (h.mem_entity entity id).mp hm
    cases hu.symm.trans hu'
    exact hn ⟨rfl, name, hn'⟩

end Holds

/-- A property of a library and its units that holds of a new library and lasts while units are
registered or changed in place. -/
structure Lasting (P : Library → (UnitId → Option DesignUnit) → Prop) : Prop where
  new : ∀ id ident, P { id, ident } fun _ => none
  insert : ∀ {library units id unit}, P library units → units id = none →
    library.get? unit.key = none →
      P (library.insert unit.key unit.kind id) (Function.update units id (some unit))
  congr : ∀ {library units units'}, P library units →
    (∀ id, (units' id).map DesignUnit.kind = (units id).map DesignUnit.kind) →
    (∀ id, (units' id).map DesignUnit.key = (units id).map DesignUnit.key) → P library units'

theorem Lasting.keep {P : Library → (UnitId → Option DesignUnit) → Prop} (hlast : Lasting P)
    (h : P library units) (hu : units id = some unit) (hk : changed.kind = unit.kind)
    (he : changed.key = unit.key) : P library (Function.update units id (some changed)) := by
  refine hlast.congr h (fun other => ?_) fun other => ?_ <;>
  · by_cases ho : other = id
    · subst ho
      simp [hu, hk, he]
    · rw [Function.update_of_ne ho]

theorem lasting_holds : Lasting Holds :=
  ⟨Holds.new, Holds.insert, Holds.congr⟩

end Library

end Vhdl
