import Vhdl.Proofs.Operations

/-! # Registration

Documents and units are registered exactly if their keys are free. A key is free if no unit has it
now, whatever units had it before: an accepted operation takes the keys of the units that it
registers or changes, and the change of a unit gives its old key back.
-/

namespace Vhdl

namespace Store

variable {store next : Store} {library owner : LibraryId} {key : UnitKey} {id : UnitId}

theorem free_congr (h : next.unitIn? library = store.unitIn? library) :
    next.Free library key ↔ store.Free library key := by
  rw [Free, Free, h]

theorem free_iff_of_update {unit : DesignUnit}
    (h : next.unitIn? library = Function.update (store.unitIn? library) id (some unit)) :
    next.Free library key ↔ unit.key ≠ key ∧
      ∀ other old, other ≠ id → store.unitIn? library other = some old → old.key ≠ key := by
  rw [Free, h]
  constructor
  · intro hf
    refine ⟨hf id unit (Function.update_self ..), fun other old hne ho => hf other old ?_⟩
    rw [Function.update_of_ne hne, ho]
  · rintro ⟨hk, hf⟩ other old ho
    by_cases he : other = id
    · subst he
      rw [Function.update_self] at ho
      cases ho
      exact hk
    · rw [Function.update_of_ne he] at ho
      exact hf other old he ho

theorem free_createLibrary_iff {name : String}
    (hc : store.createLibrary name = .ok (owner, next)) :
    next.Free library key ↔ store.Free library key := by
  obtain ⟨ident, _, _, rfl⟩ := createLibrary_cases hc
  rfl

theorem free_addDocument_iff {document : Document} {id : DocumentId}
    (ha : store.addDocument document owner = .ok (id, next)) : next.Free library key ↔
      ¬ (owner = library ∧ ∃ unit ∈ document.units, unit.key = key) ∧ store.Free library key := by
  obtain ⟨_, _, _, _, _, rfl, rfl⟩ := addDocument_cases ha
  have hin := unitIn?_addDocument store { document with library := some owner } library
  constructor
  · intro hf
    constructor
    · rintro ⟨rfl, unit, hu, hk⟩
      obtain ⟨index, hi⟩ := List.mem_iff_getElem?.mp hu
      refine hf ⟨⟨store.documents.length⟩, index⟩ unit ((hin _).trans ?_) hk
      simp [hi]
    · intro other unit hu
      refine hf other unit ((hin other).trans ?_)
      split
      · next hd =>
        rw [unitIn?_of_document?_eq_none (by simp [document?, hd])] at hu
        cases hu
      · exact hu
  · rintro ⟨hn, hf⟩ other unit hu
    have hu := (hin other).symm.trans hu
    split at hu
    · split at hu
      · next hl =>
        exact fun hk => hn ⟨Option.some.inj hl, unit, List.mem_of_getElem? hu, hk⟩
      · cases hu
    · exact hf other unit hu

theorem free_addUnit_iff {document : DocumentId} {unit : DesignUnit}
    (ha : store.addUnit document unit = .ok (id, next)) : next.Free library key ↔
      ¬ ((∃ old, store.document? document = some old ∧ old.library = some library) ∧
        unit.key = key) ∧ store.Free library key := by
  obtain ⟨old, owner, _, hd, hw, _, _, rfl, rfl⟩ := addUnit_cases ha
  by_cases ho : library = owner
  · subst ho
    have hnew := unitIn?_length_units hd library
    refine (free_iff_of_update (unitIn?_addUnit hd hw unit)).trans ?_
    refine and_congr (by simp [hd, hw])
      ⟨fun hf other old hu => ?_, fun hf other old _ => hf other old⟩
    refine hf other old (fun he => ?_) hu
    rw [he, hnew] at hu
    cases hu
  · have hx : ¬ owner = library := fun he => ho he.symm
    refine (free_congr (unitIn?_setDocument_of_ne hd (by rfl) hw ho)).trans ?_
    simp [hd, hw, hx]

theorem Registry.free_or_key_eq_iff (h : store.Registry) {unit : DesignUnit}
    (hu : store.unitIn? library id = some unit) : store.Free library key ∨ unit.key = key ↔
      ∀ other old, other ≠ id → store.unitIn? library other = some old → old.key ≠ key := by
  constructor
  · rintro (hf | hk) other old hne ho
    · exact hf other old ho
    · intro hk'
      obtain ⟨indexed, hl⟩ := h.exists_holder hu
      have hget := (h.holds library indexed hl).get?_iff key
      have hsame := ((hget other).mpr ⟨old, ho, hk'⟩).symm.trans ((hget id).mpr ⟨unit, hu, hk⟩)
      exact hne (Option.some.inj hsame)
  · intro hf
    by_cases hk : unit.key = key
    · exact .inr hk
    · refine .inl fun other old ho => ?_
      by_cases he : other = id
      · subst he
        cases hu.symm.trans ho
        exact hk
      · exact hf other old he ho

theorem Registry.free_modifyUnit_iff (h : store.Registry) {modify : DesignUnit → DesignUnit}
    (hm : store.modifyUnit id modify = .ok ((), next)) : next.Free library key ↔
      ¬ (∃ unit, store.unitIn? library id = some unit ∧ (modify unit).key = key) ∧
        (store.Free library key ∨
          ∃ unit, store.unitIn? library id = some unit ∧ unit.key = key) := by
  obtain ⟨document, owner, _, unit, hd, hw, _, hu, _, new, rfl, hm⟩ := modifyUnit_cases hm
  have hin : store.unitIn? owner id = some unit := unitIn?_eq_some_iff.mpr ⟨document, hd, hw, hu⟩
  have hnext : ∀ library, next.unitIn? library = (store.setDocument id.document
      { document with units := document.units.set id.index (modify unit) }).unitIn? library := by
    rcases hm with ⟨_, rfl⟩ | ⟨_, rfl⟩
    · exact fun _ => rfl
    · exact fun _ => rfl
  by_cases ho : library = owner
  · subst ho
    refine (free_iff_of_update ((hnext library).trans (unitIn?_modifyUnit hd hw hu _))).trans ?_
    rw [← h.free_or_key_eq_iff hin]
    simp [hin]
  · have hnone : ∀ unit, store.unitIn? library id ≠ some unit :=
      fun _ hx => ho (unitIn?_unique hx hin).1
    have hkeep := (hnext library).trans (unitIn?_setDocument_of_ne hd (by rfl) hw ho)
    refine (free_congr hkeep).trans ?_
    simp [hnone]

end Store

namespace Operation

/-- The operation gives the key to a unit of the library. -/
def Takes (store : Store) (library : LibraryId) (key : UnitKey) : Operation → Prop
  | .createLibrary _ | .getOrCreateLibrary _ => False
  | .addDocument document owner => owner = library ∧ ∃ unit ∈ document.units, unit.key = key
  | .addUnit document unit =>
    (∃ old, store.document? document = some old ∧ old.library = some library) ∧ unit.key = key
  | .modifyUnit id modify =>
    ∃ unit, store.unitIn? library id = some unit ∧ (modify unit).key = key

/-- The operation changes the unit of the library that has the key. -/
def Releases (store : Store) (library : LibraryId) (key : UnitKey) : Operation → Prop
  | .modifyUnit id _ => ∃ unit, store.unitIn? library id = some unit ∧ unit.key = key
  | _ => False

end Operation

namespace Design

variable {design : Design} {library : LibraryId} {key : UnitKey}

theorem free_createLibrary (name : String) :
    (design.createLibrary name).design.store.Free library key ↔ design.store.Free library key := by
  rw [createLibrary_eq]
  exact commit_inv (P := fun next => next.store.Free library key ↔ _) Iff.rfl
    fun _ _ hs => Store.free_createLibrary_iff hs

theorem free_perform_iff (h : design.store.Registry) {operation : Operation}
    (ha : (operation.perform design).Accepted) :
    (operation.perform design).design.store.Free library key ↔
      ¬ operation.Takes design.store library key ∧
        (design.store.Free library key ∨ operation.Releases design.store library key) := by
  cases operation with
  | createLibrary name =>
    refine (free_createLibrary name).trans ?_
    simp [Operation.Takes, Operation.Releases]
  | getOrCreateLibrary name =>
    have hf : (design.getOrCreateLibrary name).design.store.Free library key ↔
        design.store.Free library key := by
      unfold getOrCreateLibrary
      split
      · rfl
      · exact free_createLibrary name
    refine hf.trans ?_
    simp [Operation.Takes, Operation.Releases]
  | addDocument document owner =>
    change (design.addDocument document owner).Accepted at ha
    change (design.addDocument document owner).design.store.Free library key ↔ _
    rw [addDocument_eq] at ha ⊢
    obtain ⟨⟨id, next⟩, hs⟩ := Step.accepted_commit_iff.mp ha
    rw [commit_of_ok hs]
    refine (Store.free_addDocument_iff hs).trans ?_
    simp [Operation.Takes, Operation.Releases]
  | addUnit document unit =>
    change (design.addUnit document unit).Accepted at ha
    change (design.addUnit document unit).design.store.Free library key ↔ _
    rw [addUnit_eq] at ha ⊢
    obtain ⟨⟨id, next⟩, hs⟩ := Step.accepted_commit_iff.mp ha
    rw [commit_of_ok hs]
    refine (Store.free_addUnit_iff hs).trans ?_
    simp [Operation.Takes, Operation.Releases]
  | modifyUnit id modify =>
    change (design.modifyUnit id modify).Accepted at ha
    change (design.modifyUnit id modify).design.store.Free library key ↔ _
    rw [modifyUnit_eq h] at ha ⊢
    obtain ⟨⟨_, next⟩, hs⟩ := Step.accepted_commit_iff.mp ha
    rw [commit_of_ok hs]
    exact h.free_modifyUnit_iff hs

/-- In every reachable design, documents and units are accepted exactly if nothing has their path or
their keys now, and an accepted operation changes the free keys by what it takes and gives back. -/
theorem Reachable.registration_accepted_iff (h : design.Reachable) :
    (∀ document library, (design.addDocument document library).Accepted ↔
      (∃ owner, design.store.library? library = some owner) ∧
      (∀ path ∈ document.path, ∀ other ∈ design.store.documents, ∀ p ∈ other.path,
        p.same path = false) ∧
      (document.units.map DesignUnit.key).Nodup ∧
      ∀ unit ∈ document.units, design.store.Free library unit.key) ∧
    (∀ document unit, (design.addUnit document unit).Accepted ↔
      ∃ old owner, design.store.document? document = some old ∧ old.library = some owner ∧
        design.store.Free owner unit.key) ∧
    (∀ id modify, (design.modifyUnit id modify).Accepted ↔
      ∃ owner unit, design.store.unitIn? owner id = some unit ∧ (modify unit).kind = unit.kind ∧
        ((modify unit).key = unit.key ∨ design.store.Free owner (modify unit).key)) ∧
    ∀ operation : Operation, (operation.perform design).Accepted → ∀ library key,
      ((operation.perform design).design.store.Free library key ↔
        ¬ operation.Takes design.store library key ∧
          (design.store.Free library key ∨ operation.Releases design.store library key)) := by
  have hr := h.grounded.built.registry
  refine ⟨fun document library => ?_, fun document unit => ?_, fun id modify => ?_,
    fun operation ha library key => free_perform_iff hr ha⟩
  · refine (accepted_perform_iff hr (.addDocument document library)).trans ?_
    exact ⟨fun hm => ⟨hm.known, hm.path, hm.distinct, hm.free⟩,
      fun hm => ⟨hm.1, hm.2.1, hm.2.2.1, hm.2.2.2⟩⟩
  · exact accepted_perform_iff hr (.addUnit document unit)
  · exact accepted_perform_iff hr (.modifyUnit id modify)

def bareEntity (ident : Identifier) : DesignUnit :=
  { ident, body := .entity none none [] [] }

def haven : Identifier := ⟨"haven", by decide +kernel⟩

def inlet : Identifier := ⟨"inlet", by decide +kernel⟩

def renamedHaven : Design :=
  let design := ((withConfig {}).createLibrary "coast").design
  let design := (design.addDocument { units := [bareEntity haven] } ⟨0⟩).design
  (design.modifyUnit ⟨⟨0⟩, 0⟩ (·.rename inlet)).design

/-- The old name is free again and the new one is not. -/
theorem renamedHaven_registration : renamedHaven.Reachable ∧
    (renamedHaven.addUnit ⟨0⟩ (bareEntity haven)).Accepted ∧
    (∃ old owner, renamedHaven.store.document? ⟨0⟩ = some old ∧ old.library = some owner ∧
      renamedHaven.store.Free owner (.primary "haven")) ∧
    ¬ ∃ old owner, renamedHaven.store.document? ⟨0⟩ = some old ∧ old.library = some owner ∧
      renamedHaven.store.Free owner (.primary "inlet") := by
  have h : renamedHaven.Reachable :=
    .modifyUnit _ _ (.addDocument _ _ (.createLibrary _ (.start _)))
  have hunit := h.registration_accepted_iff.2.1 ⟨0⟩
  have ha : (renamedHaven.addUnit ⟨0⟩ (bareEntity haven)).Accepted :=
    Step.accepted_of_isOk (by decide +kernel)
  refine ⟨h, ha, (hunit (bareEntity haven)).mp ha, fun hf => ?_⟩
  obtain ⟨answer, hanswer⟩ := (hunit (bareEntity inlet)).mpr hf
  have hno : (renamedHaven.addUnit ⟨0⟩ (bareEntity inlet)).answer.isOk = false := by
    decide +kernel
  rw [hanswer] at hno
  cases hno

end Design

end Vhdl
