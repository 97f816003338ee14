import Vhdl.Proofs.Registry

/-! # Operations in place

An operation writes a design step by step and, if it is rejected, has put back what it wrote. So it
comes to its outcome on the store: nothing changes at all, or the new store is in place and the
analysis is dropped.
-/

namespace Vhdl

namespace Store

variable {store : Store}

theorem updateLibrary_updateLibrary (store : Store) (id : LibraryId) (f g : Library → Library) :
    (store.updateLibrary id f).updateLibrary id g =
      store.updateLibrary id fun library => g (f library) := by
  simp only [updateLibrary, List.modify_modify_eq, Function.comp_def]

theorem updateLibrary_id (store : Store) (id : LibraryId) :
    store.updateLibrary id (fun library => library) = store := by
  have hs := List.modify_id id.index store.libraries
  exact congrArg (fun libraries => { store with libraries }) hs

theorem updateUnits_updateUnits (store : Store) (id : DocumentId)
    (f g : List DesignUnit → List DesignUnit) : (store.updateUnits id f).updateUnits id g =
      store.updateUnits id fun units => g (f units) := by
  simp only [updateUnits, List.modify_modify_eq, Function.comp_def]

theorem updateUnits_self {id : DocumentId} {document : Document}
    (hd : store.document? id = some document) {update : List DesignUnit → List DesignUnit}
    (hu : update document.units = document.units) : store.updateUnits id update = store := by
  obtain ⟨hlt, hg⟩ := List.getElem?_eq_some_iff.mp hd
  have hs : store.documents.set id.index document = store.documents := by
    rw [← hg, List.set_getElem_self hlt]
  rw [updateUnits_eq hd, hu, setDocument, hs]

/-- What a rejected change writes: another unit in the place of one, and then that one again. -/
theorem setUnit_setUnit_of_ownedUnit? {id : UnitId} {owner : LibraryId} {unit : DesignUnit}
    (h : store.ownedUnit? id = some (owner, unit)) (changed : DesignUnit) :
    (store.setUnit id changed).setUnit id unit = store := by
  obtain ⟨document, hd, _, hu⟩ := ownedUnit?_eq_some_iff.mp h
  obtain ⟨hlt, hg⟩ := List.getElem?_eq_some_iff.mp hu
  rw [setUnit, setUnit, updateUnits_updateUnits]
  apply updateUnits_self hd
  rw [List.set_set, ← hg, List.set_getElem_self hlt]

end Store

namespace Step

variable {α β : Type} (design : Design) (next : α → Design → Step β)

def logged (step : Step α) (log : List LogRecord) : Step α :=
  { step with log := log ++ step.log }

@[simp]
theorem logged_nil (step : Step α) : step.logged [] = step := rfl

@[simp]
theorem logged_answer (answer : α) (log before : List LogRecord) :
    (design.answer answer log).logged before = design.answer answer (before ++ log) := rfl

@[simp]
theorem andThen_fail (diagnostic : Diagnostic) :
    (design.fail diagnostic : Step α).andThen next = design.fail diagnostic := rfl

@[simp]
theorem andThen_answer (answer : α) (log : List LogRecord) :
    (design.answer answer log).andThen next = (next answer design).logged log := rfl

theorem andThen_inv {step : Step α} {next : α → Design → Step β} {P : Design → Prop}
    (h : P step.design) (hn : ∀ answer design, P design → P (next answer design).design) :
    P (step.andThen next).design := by
  unfold andThen
  split
  · exact h
  · exact hn _ _ h

end Step

namespace Edit

variable {α β : Type} (design : Design)

@[simp]
theorem run_pure (answer : α) : (pure answer : Edit α).run design = design.answer answer := rfl

@[simp]
theorem run_bind (edit : Edit α) (next : α → Edit β) : (edit >>= next).run design =
    (edit.run design).andThen fun answer design => (next answer).run design := rfl

@[simp]
theorem run_fail (diagnostic : Diagnostic) :
    (fail diagnostic : Edit α).run design = design.fail diagnostic := rfl

@[simp]
theorem run_read (query : Store → α) :
    (read query).run design = design.answer (query design.store) := rfl

@[simp]
theorem run_write (update : Store → Store) :
    (write update).run design = { design with store := update design.store }.answer () := rfl

@[simp]
theorem run_log (record : LogRecord) : (log record).run design = design.answer () [record] := rfl

@[simp]
theorem run_invalidate : invalidate.run design =
    { design with analysis := none }.answer () (Design.dropLog design.analysis) := rfl

@[simp]
theorem run_library (id : LibraryId) : (library id).run design =
    match design.store.library? id with
    | some found => design.answer found
    | none => design.fail (Store.unknownLibrary id) := by
  rw [library, run_bind, run_read, Step.andThen_answer]
  cases design.store.library? id <;> rfl

/-- The registrations one after the other come to one change of the library. -/
theorem run_insertUnits (library : LibraryId) (document : DocumentId) (first : Nat)
    (units : List DesignUnit) : (insertUnits library document first units).run design =
      { design with store := design.store.updateLibrary library fun found =>
          Store.insertUnits found document units first }.answer () := by
  induction units generalizing design first with
  | nil => simp [insertUnits, Store.insertUnits, Store.updateLibrary_id]
  | cons unit rest ih =>
    simp only [insertUnits, run_bind, run_write, Step.andThen_answer, Step.logged_nil, ih,
      Store.updateLibrary_updateLibrary]
    rfl

end Edit

namespace Design

variable {α : Type}

def change (design : Design) (store : Store) (answer : α) (log : List LogRecord) : Step α :=
  Design.answer { store } answer (dropLog design.analysis ++ log)

/-- An outcome on the store made the step of an operation. -/
def commit (design : Design) (outcome : Except Diagnostic (α × Store))
    (log : α → Store → List LogRecord) : Step α :=
  match outcome with
  | .error diagnostic => design.fail diagnostic
  | .ok (answer, store) => design.change store answer (log answer store)

section Commit

variable {design : Design} {outcome : Except Diagnostic (α × Store)}
  {log : α → Store → List LogRecord}

theorem commit_of_ok {answer : α} {store : Store} (h : outcome = .ok (answer, store)) :
    design.commit outcome log = design.change store answer (log answer store) := by
  rw [h, commit]

theorem commit_inv {P : Design → Prop} (h : P design)
    (hn : ∀ answer store, outcome = .ok (answer, store) → P { store }) :
    P (design.commit outcome log).design := by
  unfold commit
  split
  · exact h
  · exact hn _ _ rfl

end Commit

theorem setConfig_eq (design : Design) (config : Config) :
    design.setConfig config = design.change { design.store with config } () [] := by
  simp [setConfig, change]

theorem createLibrary_eq (design : Design) (name : String) : design.createLibrary name =
    design.commit (design.store.createLibrary name) fun _ _ =>
      [.trace ("Creating library '" ++ name ++ "'")] := by
  unfold createLibrary Store.createLibrary
  cases Identifier.ofString name with
  | error diagnostic => rfl
  | ok ident =>
    by_cases hw : ident.normalized = "work"
    · simp [Edit.ofExcept, hw, commit]
    · cases hf : (design.store.findLibrary? ident).bind design.store.library? with
      | some existing => simp [Edit.ofExcept, hw, hf, commit]
      | none => simp [Edit.ofExcept, hw, hf, commit, change]

theorem addDocument_eq (design : Design) (document : Document) (library : LibraryId) :
    design.addDocument document library =
      design.commit (design.store.addDocument document library) fun id store =>
        [addedLog store document id library] := by
  unfold addDocument Store.addDocument
  cases hl : design.store.library? library with
  | none => simp [hl, commit]
  | some owner =>
    simp only [Edit.run_bind, Edit.run_library, hl, Edit.run_read, Step.andThen_answer,
      Step.logged_nil]
    cases document.path.bind fun path =>
      (design.store.samePath? path).map fun id => (path, design.store.documentLocation id) with
    | some found => rfl
    | none =>
      cases Store.vacantKeys owner [] document.units with
      | error diagnostic => rfl
      | ok keys =>
        simp only [Edit.ofExcept, Edit.run_bind, Edit.run_pure, Edit.run_read, Edit.run_write,
          Edit.run_log, Edit.run_invalidate, Edit.run_insertUnits, Step.andThen_answer,
          Step.logged_nil, Step.logged_answer, commit, change]
        rfl

theorem addUnit_eq (design : Design) (document : DocumentId) (unit : DesignUnit) :
    design.addUnit document unit =
      design.commit (design.store.addUnit document unit) fun _ _ => [] := by
  unfold addUnit Store.addUnit
  cases ho : design.store.owner? document with
  | none => simp [ho, commit]
  | some owned =>
    obtain ⟨old, owner, library⟩ := owned
    cases hv : library.vacantKey unit with
    | error diagnostic => simp [ho, hv, Edit.ofExcept, commit]
    | ok key => simp [ho, hv, Edit.ofExcept, commit, change]

/-- The unit of a registered document changes, or it is put back. -/
theorem modifyUnit_eq {design : Design} (h : design.store.Registry) (id : UnitId)
    (modify : DesignUnit → DesignUnit) :
    design.modifyUnit id modify =
      design.commit (design.store.modifyUnit id modify) fun _ _ => [] := by
  unfold modifyUnit Store.modifyUnit
  cases ho : design.store.ownedUnit? id with
  | none => simp [ho, commit]
  | some owned =>
    obtain ⟨owner, unit⟩ := owned
    have hback := Store.setUnit_setUnit_of_ownedUnit? ho (modify unit)
    obtain ⟨library, hl⟩ := h.exists_holder (Store.ownedUnit?_iff_unitIn?.mp ho)
    have hl' : (design.store.setUnit id (modify unit)).library? owner = some library := hl
    by_cases hk : (modify unit).kind = unit.kind
    · by_cases he : (modify unit).key = unit.key
      · simp [ho, hl, hl', hk, he, commit, change]
      · cases hv : library.vacantKey (modify unit) with
        | error diagnostic => simp [ho, hl, hl', hk, he, hv, hback, commit]
        | ok key => simp [ho, hl, hl', hk, he, hv, commit, change]
    · simp [ho, hk, hback, commit]

end Design

end Vhdl
