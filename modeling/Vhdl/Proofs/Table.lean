import Mathlib.Data.List.Nodup
import Vhdl.Table

/-! # Laws of tables

Looking up a key after an insertion or a removal. A table built by these operations lists every
key once, and then its entries are what look-ups find.
-/

namespace Vhdl.Table

variable {κ α : Type} [DecidableEq κ]

@[simp] theorem get?_empty (key : κ) : ({} : Table κ α).get? key = none := rfl

theorem get?_eq_none_iff {table : Table κ α} {key : κ} :
    table.get? key = none ↔ key ∉ table.keys := by
  simp only [get?, Option.map_eq_none_iff, List.find?_eq_none, decide_eq_true_eq, keys,
    List.mem_map, not_exists, not_and]

theorem contains_iff {table : Table κ α} {key : κ} :
    table.contains key = true ↔ key ∈ table.keys := by
  rw [contains, Option.isSome_iff_ne_none, ne_eq, get?_eq_none_iff, not_not]

def replaced (key : κ) (value : α) (entry : κ × α) : κ × α :=
  if entry.1 = key then (key, value) else entry

@[simp] theorem replaced_fst (key : κ) (value : α) (entry : κ × α) :
    (replaced key value entry).1 = entry.1 := by
  unfold replaced
  split
  · next h => exact h.symm
  · rfl

theorem insert_of_contains {table : Table κ α} {key : κ} (h : table.contains key = true)
    (value : α) : table.insert key value = ⟨table.entries.map (replaced key value)⟩ := by
  rw [insert, if_pos h]
  rfl

theorem insert_of_not_contains {table : Table κ α} {key : κ} (h : ¬ table.contains key = true)
    (value : α) : table.insert key value = ⟨table.entries ++ [(key, value)]⟩ := by
  rw [insert, if_neg h]

theorem get?_insert (table : Table κ α) (key other : κ) (value : α) :
    (table.insert key value).get? other = if other = key then some value else table.get? other := by
  by_cases hc : table.contains key = true
  · have hf : ((fun entry : κ × α => decide (entry.1 = other)) ∘ replaced key value) =
        fun entry => decide (entry.1 = other) := by
      funext entry
      simp
    rw [insert_of_contains hc, get?, get?, List.find?_map, hf]
    cases hl : table.entries.find? (·.1 = other) with
    | none =>
      have ho : other ∉ table.keys := get?_eq_none_iff.mp (by simp [get?, hl])
      have hn : other ≠ key := fun h => ho (h ▸ contains_iff.mp hc)
      simp [hn]
    | some entry =>
      have he : entry.1 = other := by simpa using List.find?_some hl
      subst he
      by_cases h : entry.1 = key <;> simp [replaced, h]
  · have hk : key ∉ table.keys := fun h => hc (contains_iff.mpr h)
    rw [insert_of_not_contains hc, get?, get?, List.find?_append]
    split
    · next h =>
      subst h
      have hl : table.entries.find? (·.1 = other) = none := by
        simpa [get?] using get?_eq_none_iff.mpr hk
      simp [hl]
    · next h =>
      have hn : ¬ key = other := fun he => h he.symm
      simp [hn]

theorem getD_insert (table : Table κ α) (key other : κ) (value default : α) :
    (table.insert key value).getD other default =
      if other = key then value else table.getD other default := by
  rw [getD, get?_insert]
  split <;> rfl

theorem get?_erase (table : Table κ α) (key other : κ) :
    (table.erase key).get? other = if other = key then none else table.get? other := by
  rw [erase, get?, get?, List.find?_filter]
  split
  · next h =>
    subst h
    simp
  · next h =>
    congr 2
    funext entry
    by_cases he : entry.1 = other <;> simp_all

theorem keys_insert_of_mem {table : Table κ α} {key : κ} (h : key ∈ table.keys) (value : α) :
    (table.insert key value).keys = table.keys := by
  rw [insert_of_contains (contains_iff.mpr h), keys, keys, List.map_map]
  congr 1
  funext entry
  simp

theorem keys_insert_of_not_mem {table : Table κ α} {key : κ} (h : key ∉ table.keys) (value : α) :
    (table.insert key value).keys = table.keys ++ [key] := by
  rw [insert_of_not_contains (fun hc => h (contains_iff.mp hc)), keys, keys, List.map_append]
  rfl

theorem nodup_keys_insert {table : Table κ α} (hn : table.keys.Nodup) (key : κ) (value : α) :
    (table.insert key value).keys.Nodup := by
  by_cases h : key ∈ table.keys
  · rwa [keys_insert_of_mem h]
  · rw [keys_insert_of_not_mem h]
    exact List.nodup_append.mpr ⟨hn, List.nodup_singleton _, by
      rintro a ha b hb rfl
      exact h (List.mem_singleton.mp hb ▸ ha)⟩

theorem nodup_keys_erase {table : Table κ α} (hn : table.keys.Nodup) (key : κ) :
    (table.erase key).keys.Nodup :=
  (List.filter_sublist.map _).nodup hn

/-- In a table that lists every key once the entries are what look-ups find. -/
theorem mem_entries_iff {table : Table κ α} (hn : table.keys.Nodup) {key : κ} {value : α} :
    (key, value) ∈ table.entries ↔ table.get? key = some value := by
  constructor
  · intro h
    cases hl : table.entries.find? (·.1 = key) with
    | none => exact False.elim (by simpa using List.find?_eq_none.mp hl _ h)
    | some entry =>
      have he : entry.1 = key := by simpa using List.find?_some hl
      have := List.inj_on_of_nodup_map hn (List.mem_of_find?_eq_some hl) h he
      simp [get?, hl, this]
  · intro h
    obtain ⟨entry, hl, rfl⟩ := Option.map_eq_some_iff.mp h
    have he : entry.1 = key := by simpa using List.find?_some hl
    exact he ▸ List.mem_of_find?_eq_some hl

end Vhdl.Table
