import Vhdl.Object
import Vhdl.Proofs.Spelling

/-! # Legal objects

Class and role of an object decide which of its other parts it may have, and its mode may forbid a
default value. A declaration starts out legal, and a further step is taken exactly if the object
stays legal, whatever steps came before.
-/

namespace Vhdl

open Identifier

theorem mapM_ofString_eq_ok_iff {names : List String} {idents : List Identifier} :
    names.mapM Identifier.ofString = .ok idents ↔ idents.map Identifier.text = names := by
  induction names generalizing idents with
  | nil =>
    rw [List.mapM_nil, List.map_eq_nil_iff]
    exact ⟨fun h => (Except.ok.inj h).symm, fun h => congrArg Except.ok h.symm⟩
  | cons name names ih =>
    rw [List.mapM_cons]
    constructor
    · intro h
      cases hn : Identifier.ofString name with
      | error => simp [hn, bind, Except.bind] at h
      | ok ident =>
        cases hs : names.mapM Identifier.ofString with
        | error => simp [hn, hs, bind, Except.bind] at h
        | ok others =>
          simp only [hn, hs, bind, Except.bind, pure, Except.pure, Except.ok.injEq] at h
          rw [← h, List.map_cons, ofString_eq_ok_iff.mp hn, ih.mp hs]
    · intro h
      obtain ⟨ident, others, rfl, hn, hs⟩ := List.map_eq_cons_iff.mp h
      rw [ofString_eq_ok_iff.mpr hn, ih.mpr hs]
      rfl

namespace ObjectDecl

/-- What holds between the parts of a declaration. -/
structure Legal (object : ObjectDecl) : Prop where
  mode : object.mode.isSome = true ↔ object.hasMode = true
  value : object.hasDefault = true → object.allowsDefault = true
  shared : object.shared = true → object.kind = .variable ∧ object.role = .plain
  fileOpen : object.fileOpen.isSome = true → object.kind = .file ∧ object.role = .plain
  generic : object.role = .generic → object.kind = .constant
  port : object.role = .port → object.kind = .signal
  named : object.idents ≠ []

inductive Step where
  | mode (chosen : Mode)
  | value (expr : Expr)
  | share
  | fileOpen (info : FileOpen)
  | doc (text : String)

namespace Step

def take (object : ObjectDecl) : Step → Except Diagnostic ObjectDecl
  | .mode chosen => object.withMode chosen
  | .value expr => object.withDefault expr
  | .share => object.share
  | .fileOpen info => object.withFileOpen info
  | .doc text => .ok (object.withDoc text)

/-- The object with the one part that the step is about, legal or not. -/
def set (object : ObjectDecl) : Step → ObjectDecl
  | .mode chosen => { object with mode := some chosen }
  | .value expr => { object with value := some expr }
  | .share => { object with shared := true }
  | .fileOpen info => { object with fileOpen := some info }
  | .doc text => { object with doc := some text }

end Step

/-- Declared in one of the ways that there are, and then changed step by step. -/
inductive Built : ObjectDecl → Prop where
  | declare {kind : ObjectClass} {role : Role} {names : List String}
      {indication : SubtypeIndication} {object : ObjectDecl} :
      declare kind role names indication = .ok object → Built object
  | constant {name : String} {indication : SubtypeIndication} {object : ObjectDecl} :
      constantDecl name indication = .ok object → Built object
  | signal {name : String} {indication : SubtypeIndication} {object : ObjectDecl} :
      signalDecl name indication = .ok object → Built object
  | variable {name : String} {indication : SubtypeIndication} {object : ObjectDecl} :
      variableDecl name indication = .ok object → Built object
  | generic {name : String} {indication : SubtypeIndication} {object : ObjectDecl} :
      genericDecl name indication = .ok object → Built object
  | port {name : String} {mode : Mode} {indication : SubtypeIndication} {object : ObjectDecl} :
      portDecl name mode indication = .ok object → Built object
  | step {object next : ObjectDecl} (step : Step) :
      Built object → step.take object = .ok next → Built next

variable {kind : ObjectClass} {role : Role} {names : List String} {indication : SubtypeIndication}
  {object next : ObjectDecl}

def initial (kind : ObjectClass) (role : Role) (idents : List Identifier)
    (indication : SubtypeIndication) : ObjectDecl :=
  let object : ObjectDecl := { kind, role, idents, indication }
  { object with mode := if object.hasMode then some .input else none }

theorem declare_eq_ok_iff : declare kind role names indication = .ok object ↔
    ∃ idents, idents.map Identifier.text = names ∧ idents ≠ [] ∧ role.admits kind = true ∧
      object = initial kind role idents indication := by
  simp only [← mapM_ofString_eq_ok_iff]
  unfold declare
  split
  · next hn => simp [hn]
  · next hn => simp [hn]
  · next idents hne hn =>
    by_cases ha : role.admits kind = true
    · simp only [hn, if_pos ha, Except.ok.injEq]
      constructor
      · rintro rfl
        exact ⟨idents, rfl, hne, ha, rfl⟩
      · rintro ⟨_, rfl, _, _, rfl⟩
        rfl
    · simp [ha]

theorem legal_initial {idents : List Identifier} (hn : idents ≠ []) (ha : role.admits kind = true) :
    (initial kind role idents indication).Legal where
  mode := by
    change (if hasMode _ = true then some Mode.input else none).isSome = true ↔ hasMode _ = true
    split
    · next h => exact iff_of_true rfl h
    · next h => exact iff_of_false Bool.false_ne_true h
  value := fun h => by cases h
  shared := fun h => by cases h
  fileOpen := fun h => by cases h
  generic := by
    rintro rfl
    exact of_decide_eq_true ha
  port := by
    rintro rfl
    exact of_decide_eq_true ha
  named := hn

theorem plain_iff : (object.kind = kind && !object.isInterface) = true ↔
    object.kind = kind ∧ object.role = .plain := by
  simp [isInterface]

theorem conflict_iff : (object.hasDefault && !object.allowsDefault) = true ↔
    ¬ (object.hasDefault = true → object.allowsDefault = true) := by
  simp

namespace Legal

variable (h : object.Legal)

include h

theorem set_mode_iff (chosen : Mode) : ((Step.mode chosen).set object).Legal ↔
    object.hasMode = true ∧ (object.hasDefault = true →
      ((Step.mode chosen).set object).allowsDefault = true) := by
  constructor
  · exact fun hl => ⟨hl.mode.mp rfl, hl.value⟩
  · exact fun ⟨hm, hv⟩ => { h with mode := iff_of_true rfl hm, value := hv }

theorem set_value_iff (expr : Expr) :
    ((Step.value expr).set object).Legal ↔ object.allowsDefault = true := by
  constructor
  · exact fun hl => hl.value rfl
  · exact fun hv => { h with value := fun _ => hv }

theorem set_share_iff :
    (Step.share.set object).Legal ↔ object.kind = .variable ∧ object.role = .plain := by
  constructor
  · exact fun hl => hl.shared rfl
  · exact fun hs => { h with shared := fun _ => hs }

theorem set_fileOpen_iff (info : FileOpen) : ((Step.fileOpen info).set object).Legal ↔
    object.kind = .file ∧ object.role = .plain := by
  constructor
  · exact fun hl => hl.fileOpen rfl
  · exact fun hf => { h with fileOpen := fun _ => hf }

theorem set_doc (text : String) : ((Step.doc text).set object).Legal :=
  { h with }

/-- A step is taken exactly if the object stays legal. -/
theorem take_cases (step : Step) :
    step.take object = .ok (step.set object) ∧ (step.set object).Legal ∨
      (∃ message, step.take object = .error (invalidItem object.idents message)) ∧
        ¬ (step.set object).Legal := by
  cases step with
  | mode chosen =>
    rw [h.set_mode_iff chosen]
    by_cases hm : object.hasMode = true
    · have hskip : ¬ (!object.hasMode) = true := by simp [hm]
      by_cases hv : object.hasDefault = true →
          ((Step.mode chosen).set object).allowsDefault = true
      · exact .inl ⟨(if_neg hskip).trans (if_neg fun hc => conflict_iff.mp hc hv), hm, hv⟩
      · exact .inr ⟨⟨_, (if_neg hskip).trans (if_pos (conflict_iff.mpr hv))⟩, fun hl => hv hl.2⟩
    · exact .inr ⟨⟨_, if_pos (by simp [hm])⟩, fun hl => hm hl.1⟩
  | value expr =>
    rw [h.set_value_iff expr]
    by_cases hv : object.allowsDefault = true
    · exact .inl ⟨if_pos hv, hv⟩
    · exact .inr ⟨⟨_, if_neg hv⟩, hv⟩
  | share =>
    rw [h.set_share_iff, ← plain_iff]
    by_cases hs : (object.kind = .variable && !object.isInterface) = true
    · exact .inl ⟨if_pos hs, hs⟩
    · exact .inr ⟨⟨_, if_neg hs⟩, hs⟩
  | fileOpen info =>
    rw [h.set_fileOpen_iff info, ← plain_iff]
    by_cases hf : (object.kind = .file && !object.isInterface) = true
    · exact .inl ⟨if_pos hf, hf⟩
    · exact .inr ⟨⟨_, if_neg hf⟩, hf⟩
  | doc text => exact .inl ⟨rfl, h.set_doc text⟩

end Legal

theorem legal_of_declare (h : declare kind role names indication = .ok object) :
    object.Legal := by
  obtain ⟨idents, _, hn, ha, rfl⟩ := declare_eq_ok_iff.mp h
  exact legal_initial hn ha

theorem Legal.of_take (h : object.Legal) {step : Step} (ht : step.take object = .ok next) :
    next.Legal := by
  rcases h.take_cases step with ⟨hok, hs⟩ | ⟨⟨message, he⟩, _⟩
  · exact Except.ok.inj (hok.symm.trans ht) ▸ hs
  · cases he.symm.trans ht

theorem legal_of_portDecl {name : String} {mode : Mode}
    (h : portDecl name mode indication = .ok object) : object.Legal := by
  unfold portDecl at h
  cases hd : declare .signal .port [name] indication with
  | error diagnostic =>
    rw [hd] at h
    cases h
  | ok port =>
    rw [hd] at h
    have ht : (Step.mode mode).take port = .ok object := h
    exact (legal_of_declare hd).of_take ht

theorem Built.legal (h : object.Built) : object.Legal := by
  induction h with
  | declare hd | constant hd | signal hd | «variable» hd | generic hd => exact legal_of_declare hd
  | port hp => exact legal_of_portDecl hp
  | step step _ ht ih => exact ih.of_take ht

/-- However an object was built, its parts are legal together. A further step fails exactly if its
result would not be legal, and a step that is taken changes only the part that it is about. -/
theorem Built.steps_exact (h : object.Built) : object.Legal ∧ ∀ step : Step,
    ((∃ diagnostic, step.take object = .error diagnostic) ↔ ¬ (step.set object).Legal) ∧
    (∀ next, step.take object = .ok next → next = step.set object) := by
  refine ⟨h.legal, fun step => ?_⟩
  rcases h.legal.take_cases step with ⟨hok, hs⟩ | ⟨⟨message, he⟩, hs⟩
  · refine ⟨iff_of_false ?_ (not_not_intro hs), fun next ht => ?_⟩
    · rintro ⟨diagnostic, he⟩
      cases hok.symm.trans he
    · exact Except.ok.inj (ht.symm.trans hok)
  · refine ⟨iff_of_true ⟨_, he⟩ hs, fun next ht => ?_⟩
    cases he.symm.trans ht

/-- A variable parameter that got its default value while its mode was `in`. -/
def dial : ObjectDecl where
  kind := .variable
  role := .parameter
  idents := [⟨"dial", by decide +kernel⟩]
  indication := .mk .unresolved (.mk (.simple ⟨"degrees", by decide +kernel⟩) none) none
  mode := some .input
  value := some (.literal (.abstract (.integer 0)))

theorem dial_built : dial.Built := by
  have hd : declare .variable .parameter ["dial"] dial.indication =
      .ok (initial .variable .parameter dial.idents dial.indication) :=
    declare_eq_ok_iff.mpr ⟨dial.idents, rfl, List.cons_ne_nil _ _, rfl, rfl⟩
  exact .step (.value (.literal (.abstract (.integer 0)))) (.declare hd) rfl

theorem dial_steps : dial.Built ∧ dial.Legal ∧
    (∃ diagnostic, (Step.mode .output).take dial = .error diagnostic) ∧
    ¬ ((Step.mode .output).set dial).Legal := by
  obtain ⟨hl, hstep⟩ := dial_built.steps_exact
  have hn : ¬ ((Step.mode .output).set dial).Legal := fun hl => by cases hl.value rfl
  exact ⟨dial_built, hl, (hstep (.mode .output)).1.mpr hn, hn⟩

end ObjectDecl

end Vhdl
