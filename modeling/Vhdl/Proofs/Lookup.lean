import Vhdl.Proofs.Denotation
import Vhdl.Proofs.Vertices

/-! # Looking up by text

Libraries and units are looked up by texts that need not be identifiers. A text finds what bears an
equal identifier, under the name that it bears now. A text that is no identifier finds nothing: it
is looked up as it is, but no name has it as its normalized form.
-/

namespace Vhdl

namespace Identifier

/-- The text is an identifier that equals the given one. -/
def Spells (text : String) (ident : Identifier) : Prop :=
  ∃ spelled : Identifier, spelled.text = text ∧ (spelled == ident) = true

theorem eq_none_of_invalid {α : Type} {text : String} {fault : Fault}
    (h : check text = .error fault) {found : Option α}
    (hs : ∀ a, found = some a → ∃ ident, Spells text ident) : found = none := by
  refine Option.eq_none_iff_forall_ne_some.mpr fun a ha => ?_
  obtain ⟨_, spelled, ht, _⟩ := hs a ha
  cases h.symm.trans (check_eq_ok_iff.mpr ht)

end Identifier

open Identifier

/-- The normalized form of a text is that of an identifier only if the text spells the identifier,
since a normalized form is an identifier. -/
theorem Library.normalize_eq_iff {text : String} {ident : Identifier} :
    normalize text = ident.normalized ↔ Spells text ident := by
  constructor
  · intro h
    unfold normalize at h
    split at h
    · next spelled hc => exact ⟨spelled, check_eq_ok_iff.mp hc, beq_iff_normalized.mpr h⟩
    · next fault hc =>
      have hv : fault? text = none := h ▸ ident.fault?_normalized
      have hok : check text = .ok ⟨text, hv⟩ := check_eq_ok_iff.mpr rfl
      cases hc.symm.trans hok
  · rintro ⟨spelled, rfl, he⟩
    rw [normalize, check_eq_ok_iff.mpr rfl]
    exact beq_iff_normalized.mp he

namespace DesignUnit

variable {unit : DesignUnit}

theorem key_eq_packageBody_iff {package : String} :
    unit.key = .packageBody package ↔ unit.kind = .packageBody ∧
      unit.ident.normalized = package := by
  obtain ⟨ident, context, body, doc⟩ := unit
  cases body <;> simp [key, kind, UnitBody.kind]

def ImplementsNamed (unit : DesignUnit) (entity : String) : Prop :=
  unit.kind = .architecture ∧ ∃ owner, unit.primaryName? = some owner ∧ Spells entity owner

theorem implementsNamed_iff {entity : String} : unit.ImplementsNamed entity ↔
    ∃ name, unit.key = .architecture (Library.normalize entity) name := by
  simp only [ImplementsNamed, key_eq_architecture_iff, Option.map_eq_some_iff,
    ← Library.normalize_eq_iff]
  constructor
  · rintro ⟨hk, owner, hp, he⟩
    exact ⟨_, hk, ⟨owner, hp, he.symm⟩, rfl⟩
  · rintro ⟨_, hk, ⟨owner, hp, he⟩, _⟩
    exact ⟨hk, owner, hp, he.symm⟩

end DesignUnit

namespace Library

/-- The library finds exactly the units that the texts spell, and nothing by a text that is no
identifier. -/
structure LookupExact (library : Library) (units : UnitId → Option DesignUnit) : Prop where
  primary : ∀ name id, library.primaryUnit? name = some id ↔
    ∃ unit, units id = some unit ∧ unit.isPrimary ∧ Spells name unit.ident
  architecture : ∀ entity name id, library.architecture? entity name = some id ↔
    ∃ unit, units id = some unit ∧ unit.ImplementsNamed entity ∧ Spells name unit.ident
  packageBody : ∀ package id, library.packageBody? package = some id ↔
    ∃ unit, units id = some unit ∧ unit.kind = .packageBody ∧ Spells package unit.ident
  mem_architectures : ∀ entity id, id ∈ library.architecturesNamed entity ↔
    ∃ unit, units id = some unit ∧ unit.ImplementsNamed entity
  nodup_architectures : ∀ entity, (library.architecturesNamed entity).Nodup
  invalid : ∀ text fault, check text = .error fault →
    library.primaryUnit? text = none ∧ library.packageBody? text = none ∧
      library.architecturesNamed text = [] ∧
      ∀ other, library.architecture? text other = none ∧ library.architecture? other text = none

variable {library : Library} {units : UnitId → Option DesignUnit}

theorem Holds.primaryUnit?_iff (h : library.Holds units) {name : String} {id : UnitId} :
    library.primaryUnit? name = some id ↔
      ∃ unit, units id = some unit ∧ unit.isPrimary ∧ Spells name unit.ident := by
  rw [primaryUnit?, h.get?_iff]
  simp only [DesignUnit.key_eq_primary_iff, DesignUnit.isPrimary, ← normalize_eq_iff, eq_comm]

theorem Holds.packageBody?_iff (h : library.Holds units) {package : String} {id : UnitId} :
    library.packageBody? package = some id ↔
      ∃ unit, units id = some unit ∧ unit.kind = .packageBody ∧ Spells package unit.ident := by
  rw [packageBody?, h.get?_iff]
  simp only [DesignUnit.key_eq_packageBody_iff, ← normalize_eq_iff, eq_comm]

theorem Holds.architecture?_iff (h : library.Holds units) {entity name : String} {id : UnitId} :
    library.architecture? entity name = some id ↔
      ∃ unit, units id = some unit ∧ unit.ImplementsNamed entity ∧ Spells name unit.ident := by
  rw [architecture?, h.get?_iff]
  refine exists_congr fun unit => and_congr_right fun _ => ?_
  rw [DesignUnit.implementsNamed_iff, ← normalize_eq_iff]
  constructor
  · intro hk
    exact ⟨⟨_, hk⟩, (DesignUnit.key_eq_architecture_iff.mp hk).2.2.symm⟩
  · rintro ⟨⟨_, hk⟩, hn⟩
    rw [hk, hn, (DesignUnit.key_eq_architecture_iff.mp hk).2.2]

theorem Holds.mem_architecturesNamed_iff (h : library.Holds units) {entity : String} {id : UnitId} :
    id ∈ library.architecturesNamed entity ↔
      ∃ unit, units id = some unit ∧ unit.ImplementsNamed entity := by
  rw [architecturesNamed, h.mem_entity]
  simp only [DesignUnit.implementsNamed_iff, exists_and_left]

theorem Holds.lookupExact (h : library.Holds units) : library.LookupExact units where
  primary _ _ := h.primaryUnit?_iff
  architecture _ _ _ := h.architecture?_iff
  packageBody _ _ := h.packageBody?_iff
  mem_architectures _ _ := h.mem_architecturesNamed_iff
  nodup_architectures _ := h.nodup_entity _
  invalid text fault hf := by
    have hnone : ∀ {α : Type} {found : Option α},
        (∀ a, found = some a → ∃ ident, Spells text ident) → found = none := eq_none_of_invalid hf
    refine ⟨hnone fun id hi => ?_, hnone fun id hi => ?_, ?_, fun other =>
      ⟨hnone fun id hi => ?_, hnone fun id hi => ?_⟩⟩
    · obtain ⟨unit, _, _, hs⟩ := h.primaryUnit?_iff.mp hi
      exact ⟨_, hs⟩
    · obtain ⟨unit, _, _, hs⟩ := h.packageBody?_iff.mp hi
      exact ⟨_, hs⟩
    · refine List.head?_eq_none_iff.mp (hnone fun id hi => ?_)
      obtain ⟨unit, _, _, owner, _, hs⟩ := h.mem_architecturesNamed_iff.mp (List.mem_of_head? hi)
      exact ⟨_, hs⟩
    · obtain ⟨unit, _, ⟨_, owner, _, hs⟩, _⟩ := h.architecture?_iff.mp hi
      exact ⟨_, hs⟩
    · obtain ⟨unit, _, _, hs⟩ := h.architecture?_iff.mp hi
      exact ⟨_, hs⟩

end Library

namespace Store

variable {store : Store}

theorem Registry.libraryNamed?_iff (h : store.Registry) {text : String} {id : LibraryId} :
    store.libraryNamed? text = some id ↔
      ∃ library ∈ store.libraries, library.id = id ∧ Spells text library.ident := by
  rw [libraryNamed?_eq_some_iff]
  constructor
  · rintro ⟨ident, ht, hf⟩
    obtain ⟨library, hm, hid, hn⟩ := (h.consistent.names _ _).mp hf
    exact ⟨library, hm, hid, ident, ht, beq_iff_normalized.mpr hn.symm⟩
  · rintro ⟨library, hm, hid, ident, ht, he⟩
    refine ⟨ident, ht, (h.consistent.names _ _).mpr ⟨library, hm, hid, ?_⟩⟩
    exact (beq_iff_normalized.mp he).symm

theorem Registry.find?_iff (h : store.Registry) {find : Library → Option UnitId}
    {P : DesignUnit → Prop}
    (hfind : ∀ library ∈ store.libraries, ∀ id, find library = some id ↔
      ∃ unit, store.unitIn? library.id id = some unit ∧ P unit)
    {text : String} {registered : RegisteredUnit} :
    ((store.libraryNamed? text).bind fun owner => (store.library? owner).bind fun library =>
      (find library).bind store.registered?) = some registered ↔
      store.registered? registered.id = some registered ∧
        Spells text registered.library.ident ∧ P registered.unit := by
  simp only [Option.bind_eq_some_iff, h.libraryNamed?_iff, h.library?_iff]
  constructor
  · rintro ⟨_, ⟨library, hm, rfl, hs⟩, _, ⟨hm', hid⟩, id, hi, hr⟩
    obtain rfl := h.library_eq_of_id hm' hm hid
    obtain ⟨unit, hu, hp⟩ := (hfind _ hm id).mp hi
    obtain rfl : registered.id = id := (registered?_eq_some_iff.mp hr).1
    obtain ⟨hx, _, hv⟩ := h.registered?_iff.mp hr
    obtain ⟨rfl, rfl⟩ := h.library_unique hx hm hv hu
    exact ⟨hr, hs, hp⟩
  · rintro ⟨hr, hs, hp⟩
    obtain ⟨hm, _, hu⟩ := h.registered?_iff.mp hr
    exact ⟨_, ⟨_, hm, rfl, hs⟩, _, ⟨hm, rfl⟩, registered.id,
      (hfind _ hm _).mpr ⟨_, hu, hp⟩, hr⟩

theorem Registry.findPrimary?_iff (h : store.Registry) {library name : String}
    {registered : RegisteredUnit} : store.findPrimary? library name = some registered ↔
      store.registered? registered.id = some registered ∧
        Spells library registered.library.ident ∧
        registered.unit.isPrimary ∧ Spells name registered.unit.ident :=
  h.find?_iff fun _ hm _ => (h.holds_mem hm).primaryUnit?_iff

theorem Registry.findArchitecture?_iff (h : store.Registry) {library entity name : String}
    {registered : RegisteredUnit} :
    store.findArchitecture? library entity name = some registered ↔
      store.registered? registered.id = some registered ∧
        Spells library registered.library.ident ∧
        registered.unit.ImplementsNamed entity ∧ Spells name registered.unit.ident :=
  h.find?_iff fun _ hm _ => (h.holds_mem hm).architecture?_iff

/-- The store finds exactly the registered units that the texts spell, and nothing by a text that is
no identifier. -/
structure LookupExact (store : Store) : Prop where
  primary : ∀ library name registered, store.findPrimary? library name = some registered ↔
    store.registered? registered.id = some registered ∧
      Spells library registered.library.ident ∧
      registered.unit.isPrimary ∧ Spells name registered.unit.ident
  architecture : ∀ library entity name registered,
    store.findArchitecture? library entity name = some registered ↔
      store.registered? registered.id = some registered ∧
        Spells library registered.library.ident ∧
        registered.unit.ImplementsNamed entity ∧ Spells name registered.unit.ident
  libraries : ∀ library ∈ store.libraries, library.LookupExact (store.unitIn? library.id)
  invalid : ∀ text fault, check text = .error fault → ∀ a b,
    store.findPrimary? text a = none ∧ store.findPrimary? a text = none ∧
      store.findArchitecture? text a b = none ∧ store.findArchitecture? a text b = none ∧
      store.findArchitecture? a b text = none

theorem Registry.lookupExact (h : store.Registry) : store.LookupExact where
  primary _ _ _ := h.findPrimary?_iff
  architecture _ _ _ _ := h.findArchitecture?_iff
  libraries _ hm := (h.holds_mem hm).lookupExact
  invalid text fault hf a b := by
    have hnone : ∀ {found : Option RegisteredUnit},
        (∀ a, found = some a → ∃ ident, Spells text ident) → found = none := eq_none_of_invalid hf
    refine ⟨hnone fun _ hr => ?_, hnone fun _ hr => ?_, hnone fun _ hr => ?_, hnone fun _ hr => ?_,
      hnone fun _ hr => ?_⟩
    · exact ⟨_, (h.findPrimary?_iff.mp hr).2.1⟩
    · exact ⟨_, (h.findPrimary?_iff.mp hr).2.2.2⟩
    · exact ⟨_, (h.findArchitecture?_iff.mp hr).2.1⟩
    · obtain ⟨_, _, ⟨_, owner, _, hs⟩, _⟩ := h.findArchitecture?_iff.mp hr
      exact ⟨owner, hs⟩
    · exact ⟨_, (h.findArchitecture?_iff.mp hr).2.2.2⟩

end Store

namespace Design

/-- Look-up by text is exact in every reachable design, whatever its units were called before. -/
theorem Reachable.lookup_exact {design : Design} (h : design.Reachable) :
    design.store.LookupExact :=
  h.grounded.built.registry.lookupExact

def quarry : Design :=
  let slab : Identifier := ⟨"slab", by decide +kernel⟩
  let chisel : Identifier := ⟨"chisel", by decide +kernel⟩
  let marble : Identifier := ⟨"\\Marble\\", by decide +kernel⟩
  let units : List DesignUnit :=
    [{ ident := slab, body := .entity none none [] [] },
      { ident := ⟨"Rough", by decide +kernel⟩, body := .architecture { item := slab } [] [] },
      { ident := chisel, body := .package none [] },
      { ident := chisel, body := .packageBody none [] }]
  let design := ((withConfig {}).createLibrary "Quarry").design
  let design := (design.addDocument { units } ⟨0⟩).design
  let design := (design.modifyUnit ⟨⟨0⟩, 0⟩ (·.rename marble)).design
  (design.modifyUnit ⟨⟨0⟩, 1⟩ (·.setEntity marble)).design

/-- The case of a letter matters between backslashes only, and old names are gone. -/
theorem quarry_lookup : quarry.Reachable ∧
    ["\\Marble\\", "\\marble\\", "Marble", "slab", "CHISEL", "rough", ""].map (fun name =>
      (quarry.store.findPrimary? "QUARRY" name).map RegisteredUnit.id) =
      [some ⟨⟨0⟩, 0⟩, none, none, none, some ⟨⟨0⟩, 2⟩, none, none] ∧
    ["\\Marble\\", "slab", "marble_"].map (fun entity =>
      (quarry.store.findArchitecture? "quarry" entity "ROUGH").map RegisteredUnit.id) =
      [some ⟨⟨0⟩, 1⟩, none, none] ∧
    (quarry.store.libraries.map fun library => (library.architecturesNamed "\\Marble\\",
      library.architecturesNamed "slab", library.packageBody? "Chisel")) =
      [([⟨⟨0⟩, 1⟩], [], some ⟨⟨0⟩, 3⟩)] ∧
    quarry.store.LookupExact :=
  have h : quarry.Reachable := .modifyUnit _ _ (.modifyUnit _ _ (.addDocument _ _
    (.createLibrary _ (.start _))))
  ⟨h, by decide +kernel, by decide +kernel, by decide +kernel, h.lookup_exact⟩

end Design

end Vhdl
