import Vhdl.Proofs.Consistency
import Vhdl.Proofs.Spelling

/-! # Operations on a design

An operation is accepted exactly when nothing in the design stands against it. A rejected operation
leaves the whole design as it was, and one that changes the design drops its analysis.
-/

namespace Vhdl

namespace Store

variable {store : Store} {owner : LibraryId} {library : Library} {name : String}

def Free (store : Store) (library : LibraryId) (key : UnitKey) : Prop :=
  ∀ id unit, store.unitIn? library id = some unit → unit.key ≠ key

theorem Registry.get?_eq_none_iff (h : store.Registry) (hl : store.library? owner = some library)
    {key : UnitKey} : library.get? key = none ↔ store.Free owner key := by
  have hg := (h.holds owner library hl).get?_iff key
  constructor
  · intro hn id unit hu he
    have hs := (hg id).mpr ⟨unit, hu, he⟩
    rw [hn] at hs
    cases hs
  · intro hf
    refine Option.eq_none_iff_forall_ne_some.mpr fun id hs => ?_
    obtain ⟨unit, hu, he⟩ := (hg id).mp hs
    exact hf id unit hu he

/-- The text is an identifier other than `work` that no library bears. -/
def MayCreate (store : Store) (name : String) : Prop :=
  ∃ ident : Identifier, ident.text = name ∧ ident.normalized ≠ "work" ∧
    ∀ library ∈ store.libraries, library.ident.normalized ≠ ident.normalized

/-- The library exists, the path is new, and the units have distinct keys that are free. -/
structure MayAdd (store : Store) (document : Document) (library : LibraryId) : Prop where
  known : ∃ owner, store.library? library = some owner
  path : ∀ path ∈ document.path, ∀ other ∈ store.documents, ∀ p ∈ other.path, p.same path = false
  distinct : (document.units.map DesignUnit.key).Nodup
  free : ∀ unit ∈ document.units, store.Free library unit.key

end Store

theorem Store.libraryNamed?_eq_some_iff {store : Store} {name : String} {id : LibraryId} :
    store.libraryNamed? name = some id ↔
      ∃ ident : Identifier, ident.text = name ∧ store.findLibrary? ident = some id := by
  simp only [← Identifier.check_eq_ok_iff, libraryNamed?]
  cases Identifier.check name with
  | error fault => simp
  | ok ident => simp

namespace Store

variable {store : Store} {owner : LibraryId} {library : Library} {name : String}

theorem Registry.findLibrary?_bind_eq_none_iff (h : store.Registry) {ident : Identifier} :
    (store.findLibrary? ident).bind store.library? = none ↔
      ∀ library ∈ store.libraries, library.ident.normalized ≠ ident.normalized := by
  rw [Option.bind_eq_none_iff]
  constructor
  · intro hf library hm he
    have hl := h.library?_iff.mpr ⟨hm, rfl⟩
    have hn := hf library.id ((h.names ident.normalized library.id).mpr ⟨library, hl, he⟩)
    rw [hl] at hn
    cases hn
  · intro hn id hi
    obtain ⟨library, hl, he⟩ := (h.names ident.normalized id).mp hi
    exact (hn library (h.library?_iff.mp hl).1 he).elim

theorem Registry.createLibrary_ok_iff (h : store.Registry) :
    (∃ result, store.createLibrary name = .ok result) ↔ store.MayCreate name := by
  unfold MayCreate
  constructor
  · rintro ⟨⟨id, next⟩, hc⟩
    unfold Store.createLibrary at hc
    split at hc
    · cases hc
    · next ident hi =>
      split at hc
      · cases hc
      · next hw =>
        split at hc
        · cases hc
        · next hf =>
          exact ⟨ident, Identifier.ofString_eq_ok_iff.mp hi, hw,
            h.findLibrary?_bind_eq_none_iff.mp hf⟩
  · rintro ⟨ident, hi, hw, hn⟩
    unfold Store.createLibrary
    rw [Identifier.ofString_eq_ok_iff.mpr hi]
    simp only [hw, if_false, h.findLibrary?_bind_eq_none_iff.mpr hn]
    exact ⟨_, rfl⟩

theorem createLibrary_text_cases {next : Store} {ident : Identifier} {id : LibraryId}
    (hc : store.createLibrary ident.text = .ok (id, next)) :
    id = ⟨store.libraries.length⟩ ∧ next = { store with
      libraries := store.libraries ++ [{ id, ident }]
      libraryNames := store.libraryNames.insert ident.normalized id } := by
  unfold Store.createLibrary at hc
  rw [Identifier.ofString_eq_ok_iff.mpr rfl] at hc
  dsimp only at hc
  split at hc
  · cases hc
  · split at hc
    · cases hc
    · cases hc
      exact ⟨rfl, rfl⟩

theorem vacantKeys_ok_iff {units : List DesignUnit} {taken : List UnitKey} :
    (∃ keys, vacantKeys library taken units = .ok keys) ↔
      (∀ unit ∈ units, library.get? unit.key = none ∧ unit.key ∉ taken) ∧
        (units.map DesignUnit.key).Nodup := by
  constructor
  · rintro ⟨keys, hv⟩
    exact vacantKeys_ok hv
  · rintro ⟨hu, hn⟩
    induction units generalizing taken with
    | nil => exact ⟨taken, rfl⟩
    | cons unit rest ih =>
      obtain ⟨hg, ht⟩ := hu unit (by simp)
      obtain ⟨hk, hn⟩ := List.nodup_cons.mp hn
      have hv : library.vacantKey unit = .ok unit.key := Library.vacantKey_eq_ok_iff.mpr ⟨hg, rfl⟩
      simp only [vacantKeys, hv, ht, if_false]
      refine ih (fun other ho => ?_) hn
      obtain ⟨hg', ht'⟩ := hu other (by simp [ho])
      refine ⟨hg', fun hm => ?_⟩
      rcases List.mem_append.mp hm with hm | hm
      · exact ht' hm
      · exact hk (List.mem_map.mpr ⟨other, ho, List.mem_singleton.mp hm⟩)

theorem Registry.addDocument_ok_iff (h : store.Registry) {document : Document} :
    (∃ result, store.addDocument document owner = .ok result) ↔ store.MayAdd document owner := by
  constructor
  · rintro ⟨⟨id, next⟩, ha⟩
    obtain ⟨library, keys, hl, hp, hv, _⟩ := addDocument_cases ha
    obtain ⟨hf, hn⟩ := vacantKeys_ok hv
    refine ⟨⟨library, hl⟩, fun path he => samePath?_eq_none_iff.mp (hp path he), hn, ?_⟩
    intro unit hu
    exact (h.get?_eq_none_iff hl).mp (hf unit hu).1
  · rintro ⟨⟨library, hl⟩, hp, hn, hf⟩
    have hfree : ∀ unit ∈ document.units, library.get? unit.key = none ∧ unit.key ∉ [] :=
      fun unit hu => ⟨(h.get?_eq_none_iff hl).mpr (hf unit hu), List.not_mem_nil⟩
    obtain ⟨keys, hv⟩ := vacantKeys_ok_iff.mpr ⟨hfree, hn⟩
    have hs : (document.path.bind fun path =>
        (store.samePath? path).map fun id => (path, store.documentLocation id)) = none := by
      cases he : document.path with
      | none => rfl
      | some path =>
        have hx : store.samePath? path = none := samePath?_eq_none_iff.mpr (hp path he)
        simp [hx]
    unfold Store.addDocument
    simp only [hl, hs, hv]
    exact ⟨_, rfl⟩

theorem Registry.addUnit_ok_iff (h : store.Registry) {document : DocumentId} {unit : DesignUnit} :
    (∃ result, store.addUnit document unit = .ok result) ↔
      ∃ old owner, store.document? document = some old ∧ old.library = some owner ∧
        store.Free owner unit.key := by
  constructor
  · rintro ⟨⟨id, next⟩, ha⟩
    obtain ⟨old, owner, library, hd, hw, hl, hv, _⟩ := addUnit_cases ha
    exact ⟨old, owner, hd, hw, (h.get?_eq_none_iff hl).mp hv⟩
  · rintro ⟨old, owner, hd, hw, hf⟩
    obtain ⟨library, hl⟩ := h.exists_owner hd hw
    have ho : store.owner? document = some (old, owner, library) :=
      owner?_eq_some_iff.mpr ⟨hd, hw, hl⟩
    have hv : library.vacantKey unit = .ok unit.key :=
      Library.vacantKey_eq_ok_iff.mpr ⟨(h.get?_eq_none_iff hl).mpr hf, rfl⟩
    unfold Store.addUnit
    simp only [ho, hv]
    exact ⟨_, rfl⟩

theorem Registry.modifyUnit_ok_iff (h : store.Registry) {id : UnitId}
    {modify : DesignUnit → DesignUnit} : (∃ result, store.modifyUnit id modify = .ok result) ↔
      ∃ owner unit, store.unitIn? owner id = some unit ∧ (modify unit).kind = unit.kind ∧
        ((modify unit).key = unit.key ∨ store.Free owner (modify unit).key) := by
  constructor
  · rintro ⟨⟨_, next⟩, hm⟩
    obtain ⟨document, owner, library, unit, hd, hw, hl, hu, hk, _, _, hm⟩ := modifyUnit_cases hm
    refine ⟨owner, unit, unitIn?_eq_some_iff.mpr ⟨document, hd, hw, hu⟩, hk, ?_⟩
    rcases hm with ⟨he, _⟩ | ⟨hv, _⟩
    · exact .inl he
    · exact .inr ((h.get?_eq_none_iff hl).mp hv)
  · rintro ⟨owner, unit, hin, hk, hf⟩
    obtain ⟨library, hl⟩ := h.exists_holder hin
    have ho : store.ownedUnit? id = some (owner, unit) := ownedUnit?_iff_unitIn?.mpr hin
    unfold Store.modifyUnit
    simp only [ho, hl, hk, ne_eq, not_true_eq_false, if_false]
    split
    · exact ⟨_, rfl⟩
    · next hne =>
      have hv : library.vacantKey (modify unit) = .ok (modify unit).key :=
        Library.vacantKey_eq_ok_iff.mpr
          ⟨(h.get?_eq_none_iff hl).mpr (hf.resolve_left hne), rfl⟩
      simp only [hv]
      exact ⟨_, rfl⟩

end Store

/-- An operation that registers or changes something, with its arguments. -/
inductive Operation where
  | createLibrary (name : String)
  | getOrCreateLibrary (name : String)
  | addDocument (document : Document) (library : LibraryId)
  | addUnit (document : DocumentId) (unit : DesignUnit)
  | modifyUnit (id : UnitId) (modify : DesignUnit → DesignUnit)

namespace Operation

def Answer : Operation → Type
  | .createLibrary _ | .getOrCreateLibrary _ => LibraryId
  | .addDocument _ _ => DocumentId
  | .addUnit _ _ => UnitId
  | .modifyUnit _ _ => Unit

def perform (design : Design) : (operation : Operation) → Step operation.Answer
  | .createLibrary name => design.createLibrary name
  | .getOrCreateLibrary name => design.getOrCreateLibrary name
  | .addDocument document library => design.addDocument document library
  | .addUnit document unit => design.addUnit document unit
  | .modifyUnit id modify => design.modifyUnit id modify

/-- Nothing that is registered in the store stands against the operation. -/
def Admissible (store : Store) : Operation → Prop
  | .createLibrary name => store.MayCreate name
  | .getOrCreateLibrary name => (∃ id, store.libraryNamed? name = some id) ∨ store.MayCreate name
  | .addDocument document library => store.MayAdd document library
  | .addUnit document unit => ∃ old owner, store.document? document = some old ∧
      old.library = some owner ∧ store.Free owner unit.key
  | .modifyUnit id modify => ∃ owner unit, store.unitIn? owner id = some unit ∧
      (modify unit).kind = unit.kind ∧
      ((modify unit).key = unit.key ∨ store.Free owner (modify unit).key)

end Operation

namespace Step

variable {α : Type} {step : Step α} {design : Design}

def Accepted (step : Step α) : Prop :=
  ∃ answer, step.answer = .ok answer

theorem accepted_of_isOk (h : step.answer.isOk = true) : step.Accepted := by
  cases hs : step.answer with
  | error diagnostic => simp [hs, Except.isOk, Except.toBool] at h
  | ok answer => exact ⟨answer, hs⟩

/-- A rejected step leaves the design as it was, and a step that changes it drops the analysis. -/
structure Atomic (step : Step α) (design : Design) : Prop where
  rejected : ∀ diagnostic, step.answer = .error diagnostic → step.design = design
  accepted : step.Accepted → step.design ≠ design → step.design.analysis = none

theorem atomic_answer (design : Design) (answer : α) (log : List LogRecord) :
    (design.answer answer log).Atomic design :=
  ⟨fun _ _ => rfl, fun _ hne => absurd rfl hne⟩

variable {outcome : Except Diagnostic (α × Store)} {log : α → Store → List LogRecord}

theorem accepted_commit_iff :
    (design.commit outcome log).Accepted ↔ ∃ result, outcome = .ok result := by
  cases outcome with
  | error diagnostic => simp [Accepted, Design.commit, Design.fail]
  | ok result => exact iff_of_true ⟨result.1, rfl⟩ ⟨result, rfl⟩

theorem atomic_commit : (design.commit outcome log).Atomic design := by
  cases outcome with
  | error diagnostic => exact ⟨fun _ _ => rfl, fun _ hne => absurd rfl hne⟩
  | ok result =>
    constructor
    · intro diagnostic he
      cases he
    · intro _ _
      rfl

end Step

namespace Design

variable {design : Design}

theorem Reachable.perform (h : design.Reachable) (operation : Operation) :
    (operation.perform design).design.Reachable := by
  cases operation with
  | createLibrary name => exact .createLibrary name h
  | getOrCreateLibrary name => exact .getOrCreateLibrary name h
  | addDocument document library => exact .addDocument document library h
  | addUnit document unit => exact .addUnit document unit h
  | modifyUnit id modify => exact .modifyUnit id modify h

/-- What an operation writes comes to an outcome on the store, if it writes at all. -/
theorem perform_cases (h : design.store.Registry) (operation : Operation) :
    (∃ answer, operation.perform design = design.answer answer) ∨
      ∃ outcome log, operation.perform design = design.commit outcome log := by
  cases operation with
  | createLibrary name => exact .inr ⟨_, _, design.createLibrary_eq name⟩
  | getOrCreateLibrary name =>
    change (∃ answer, design.getOrCreateLibrary name = _) ∨
      ∃ outcome log, design.getOrCreateLibrary name = _
    unfold getOrCreateLibrary
    split
    · exact .inl ⟨_, rfl⟩
    · exact .inr ⟨_, _, design.createLibrary_eq name⟩
  | addDocument document library => exact .inr ⟨_, _, design.addDocument_eq document library⟩
  | addUnit document unit => exact .inr ⟨_, _, design.addUnit_eq document unit⟩
  | modifyUnit id modify => exact .inr ⟨_, _, modifyUnit_eq h id modify⟩

theorem atomic_perform (h : design.store.Registry) (operation : Operation) :
    (operation.perform design).Atomic design := by
  rcases perform_cases h operation with ⟨answer, he⟩ | ⟨outcome, log, he⟩
  · rw [he]
    exact Step.atomic_answer ..
  · rw [he]
    exact Step.atomic_commit

theorem accepted_createLibrary_iff (h : design.store.Registry) {name : String} :
    (design.createLibrary name).Accepted ↔ design.store.MayCreate name := by
  rw [createLibrary_eq, Step.accepted_commit_iff, h.createLibrary_ok_iff]

theorem accepted_perform_iff (h : design.store.Registry) (operation : Operation) :
    (operation.perform design).Accepted ↔ operation.Admissible design.store := by
  cases operation with
  | createLibrary name => exact accepted_createLibrary_iff h
  | getOrCreateLibrary name =>
    change (design.getOrCreateLibrary name).Accepted ↔
      (∃ id, design.store.libraryNamed? name = some id) ∨ design.store.MayCreate name
    unfold getOrCreateLibrary
    split
    · next id hn => exact iff_of_true ⟨id, rfl⟩ (.inl ⟨id, hn⟩)
    · next hn =>
      rw [hn, accepted_createLibrary_iff h]
      simp
  | addDocument document library =>
    change (design.addDocument document library).Accepted ↔ _
    rw [addDocument_eq, Step.accepted_commit_iff]
    exact h.addDocument_ok_iff
  | addUnit document unit =>
    change (design.addUnit document unit).Accepted ↔ _
    rw [addUnit_eq, Step.accepted_commit_iff]
    exact h.addUnit_ok_iff
  | modifyUnit id modify =>
    change (design.modifyUnit id modify).Accepted ↔ _
    rw [modifyUnit_eq h, Step.accepted_commit_iff]
    exact h.modifyUnit_ok_iff

/-- In every reachable design an operation is accepted exactly when it is admissible. A rejected one
leaves the whole design as it was, and whatever changes the design drops its analysis. -/
theorem Reachable.operations_atomic (h : design.Reachable) :
    (∀ operation : Operation,
      ((operation.perform design).Accepted ↔ operation.Admissible design.store) ∧
        (operation.perform design).Atomic design) ∧
      ∀ config, (design.setConfig config).design.analysis = none :=
  have hr := h.grounded.built.registry
  ⟨fun operation => ⟨accepted_perform_iff hr operation, atomic_perform hr operation⟩, fun _ => rfl⟩

def firstGate : Identifier := ⟨"first_gate", by decide +kernel⟩

def twoGates : Design :=
  let entity (ident : Identifier) : DesignUnit := { ident, body := .entity none none [] [] }
  let units := [entity firstGate, entity ⟨"second_gate", by decide +kernel⟩]
  let design := ((withConfig {}).createLibrary "lib").design
  (design.addDocument { units } ⟨0⟩).design.analyze.design

def nameClash : Operation :=
  .modifyUnit ⟨⟨0⟩, 1⟩ (·.rename firstGate)

def kindClash : Operation :=
  .modifyUnit ⟨⟨0⟩, 1⟩ ({ · with body := .package none [] })

/-- The second entity may take neither the name of the first one nor another kind. -/
theorem nameClash_atomic : twoGates.Reachable ∧ twoGates.isAnalyzed = true ∧
    (∀ operation ∈ [nameClash, kindClash],
      (operation.perform twoGates).answer.isOk = false ∧
      ((operation.perform twoGates).Accepted ↔ operation.Admissible twoGates.store) ∧
      (operation.perform twoGates).Atomic twoGates) ∧
    (twoGates.setConfig {}).design.analysis = none := by
  have h : twoGates.Reachable := .analyze (.addDocument _ _ (.createLibrary _ (.start _)))
  obtain ⟨ho, hc⟩ := h.operations_atomic
  refine ⟨h, by decide +kernel, ?_, hc {}⟩
  intro operation hm
  have hrejected : (operation.perform twoGates).answer.isOk = false := by
    simp only [List.mem_cons, List.not_mem_nil, or_false] at hm
    rcases hm with rfl | rfl
    · decide +kernel
    · decide +kernel
  exact ⟨hrejected, ho operation⟩

end Design

end Vhdl
