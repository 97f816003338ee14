import Vhdl.Proofs.Token

/-! # Reading expressions back

Expressions of names, numbers, operators, conditional expressions and parentheses are read back from
their text, with one stack of what still waits for an operand. A waiting operator takes its operand
once an operator follows that does not bind tighter. What is read is the expression with all
parentheses that the text shows, so that two expressions have the same text exactly if they have the
same reading. For expressions without conditional ones the reading is the expression itself, up to
parentheses.
-/

namespace Vhdl

def Operator.level (op : Operator) : Nat :=
  op.operatorClass.rank + 1

namespace Expr

def tight : Nat := 10

/-- How tightly the parts of an expression hold together where it is written bare. -/
def level : Expr → Nat
  | .binary op _ _ => op.level
  | .conditional _ _ _ => 0
  | _ => tight

def tokens : Expr → List Token
  | .binary op lhs rhs => lhs.tokens ++ .joint (.binary op) :: rhs.tokens
  | .unary op operand => .unary op :: operand.tokens
  | .conditional whenTrue condition whenFalse =>
    whenTrue.tokens ++ .joint .whenTrue ::
      (condition.tokens ++ .joint .otherwise :: whenFalse.tokens)
  | .name (.simple ident) => [.name ident]
  | .literal (.abstract (.integer value)) => [.integer value]
  | .paren inner => .opening :: (inner.tokens ++ [.closing])
  | _ => []

/-- Expressions that need no more parentheses than they have. -/
inductive Bare : Expr → Prop where
  | name (ident : Identifier) : Bare (.name (.simple ident))
  | integer (value : Nat) : Bare (.literal (.abstract (.integer value)))
  | binary {op : Operator} {lhs rhs : Expr} (hl : op.level ≤ lhs.level)
      (hr : op.level < rhs.level) : Bare lhs → Bare rhs → Bare (.binary op lhs rhs)
  | unary {op : Operator} {operand : Expr} (ho : tight ≤ operand.level) :
      Bare operand → Bare (.unary op operand)
  | conditional {whenTrue condition whenFalse : Expr} (ht : 0 < whenTrue.level) :
      Bare whenTrue → Bare condition → Bare whenFalse →
        Bare (.conditional whenTrue condition whenFalse)
  | paren {inner : Expr} : Bare inner → Bare (.paren inner)

variable {expr other : Expr} {op : Operator}

theorem tight_pos : 0 < tight := by decide

theorem level_lt_tight (op : Operator) : op.level < tight := by
  cases op <;> decide

theorem Bare.fits_append (h : expr.Bare) {rest : List Token} (hr : Token.Fits false rest) :
    Token.Fits true (expr.tokens ++ rest) := by
  induction h generalizing rest with
  | name | integer => exact ⟨rfl, hr⟩
  | binary _ _ _ _ ihl ihr =>
    rw [tokens, List.append_assoc]
    exact ihl ⟨rfl, ihr hr⟩
  | unary _ _ ih => exact ⟨rfl, ih hr⟩
  | conditional _ _ _ _ iht ihc ihf =>
    rw [tokens, List.append_assoc, List.cons_append, List.append_assoc]
    exact iht ⟨rfl, ihc ⟨rfl, ihf hr⟩⟩
  | paren _ ih =>
    rw [tokens, List.cons_append, List.append_assoc]
    exact ⟨rfl, ih ⟨rfl, hr⟩⟩

theorem Bare.fits (h : expr.Bare) : Token.Fits true expr.tokens := by
  have hnil : Token.Fits false [] := rfl
  simpa using h.fits_append hnil

end Expr

/-- What waits for an operand, or for the end of a part. -/
inductive Pending where
  | unary (op : Operator)
  | binary (op : Operator) (lhs : Expr)
  | alternative (whenTrue condition : Expr)
  | guarded (whenTrue : Expr)
  | group

namespace Pending

/-- Where something waits directly in front of an expression, the expression has at least this
level. -/
def bound : Pending → Nat
  | .unary _ => Expr.tight
  | .binary op _ => op.level + 1
  | .alternative _ _ | .guarded _ | .group => 0

def Admit (stack : List Pending) (level : Nat) : Prop :=
  ∀ top ∈ stack.head?, top.bound ≤ level

theorem Admit.nil (level : Nat) : Admit [] level := nofun

theorem Admit.cons (top : Pending) (stack : List Pending) {level : Nat} (h : top.bound ≤ level) :
    Admit (top :: stack) level := by
  rintro _ ⟨⟩
  exact h

theorem Admit.mono {stack : List Pending} {m n : Nat} (h : Admit stack m) (hle : m ≤ n) :
    Admit stack n :=
  fun top ht => (h top ht).trans hle

/-- A value is taken by all that waits for it and binds no looser than the level. -/
def settle (level : Nat) : List Pending → Expr → List Pending × Expr
  | .unary op :: stack, value => settle level stack (.unary op value)
  | .binary op lhs :: stack, value =>
    if level ≤ op.level then settle level stack (.binary op lhs value)
    else (.binary op lhs :: stack, value)
  | .alternative whenTrue condition :: stack, value =>
    if level = 0 then settle level stack (.conditional whenTrue condition value)
    else (.alternative whenTrue condition :: stack, value)
  | stack, value => (stack, value)

/-- What waits in front of a looser expression takes no part of it. -/
theorem settle_of_admit {stack : List Pending} {m n : Nat} (h : Admit stack m)
    (hm : m < Expr.tight) (hmn : m ≤ n) (hn : 0 < n) (value : Expr) :
    settle n stack value = (stack, value) := by
  cases stack with
  | nil => rfl
  | cons top stack =>
    have hb : top.bound ≤ m := h top rfl
    cases top with
    | unary op => exact absurd (hb.trans_lt hm) (Nat.lt_irrefl _)
    | binary op lhs => exact if_neg (Nat.not_le.mpr (hb.trans hmn))
    | alternative => exact if_neg hn.ne'
    | guarded | group => rfl

end Pending

inductive Reader where
  | before (stack : List Pending)
  | behind (stack : List Pending) (value : Expr)
  | stuck

namespace Reader

open Pending

def step : Reader → Token → Reader
  | .before stack, .name ident => .behind stack (.name (.simple ident))
  | .before stack, .integer value => .behind stack (.literal (.abstract (.integer value)))
  | .before stack, .unary op => .before (.unary op :: stack)
  | .before stack, .opening => .before (.group :: stack)
  | .behind stack value, .joint (.binary op) =>
    match settle op.level stack value with
    | (stack, lhs) => .before (.binary op lhs :: stack)
  | .behind stack value, .joint .whenTrue =>
    match settle 1 stack value with
    | (stack, whenTrue) => .before (.guarded whenTrue :: stack)
  | .behind stack value, .joint .otherwise =>
    match settle 0 stack value with
    | (.guarded whenTrue :: stack, condition) =>
      .before (.alternative whenTrue condition :: stack)
    | _ => .stuck
  | .behind stack value, .closing =>
    match settle 0 stack value with
    | (.group :: stack, inner) => .behind stack (.paren inner)
    | _ => .stuck
  | _, _ => .stuck

def run (reader : Reader) (tokens : List Token) : Reader :=
  tokens.foldl step reader

def result? : Reader → Option Expr
  | .behind stack value =>
    match settle 0 stack value with
    | ([], expr) => some expr
    | _ => none
  | _ => none

@[simp] theorem run_nil (reader : Reader) : reader.run [] = reader := rfl

@[simp] theorem run_cons (reader : Reader) (token : Token) (tokens : List Token) :
    reader.run (token :: tokens) = (reader.step token).run tokens := rfl

@[simp] theorem run_append (reader : Reader) (tokens others : List Token) :
    reader.run (tokens ++ others) = (reader.run tokens).run others :=
  List.foldl_append

/-- Behind a bare expression the reader settles as if the expression had been read as one value.
Until then parts of it may wait on the stack, as the next token may bind tighter. -/
theorem run_tokens {expr : Expr} (h : expr.Bare) {stack : List Pending}
    (ha : Admit stack expr.level) :
    ∃ stack' value, (before stack).run expr.tokens = .behind stack' value ∧
      ∀ level ≤ expr.level, settle level stack' value = settle level stack expr := by
  induction h generalizing stack with
  | name | integer => exact ⟨_, _, rfl, fun _ _ => rfl⟩
  | @binary op lhs rhs hl hr _ _ ihl ihr =>
    obtain ⟨stack₁, value₁, hrun₁, hsettle₁⟩ := ihl (ha.mono hl)
    obtain ⟨stack₂, value₂, hrun₂, hsettle₂⟩ := ihr (.cons (.binary op lhs) stack hr)
    -- The left operand takes back all that waits in it, as nothing in it is looser than `op`.
    have hlhs : settle op.level stack₁ value₁ = (stack, lhs) := by
      rw [hsettle₁ _ hl]
      exact settle_of_admit ha (Expr.level_lt_tight op) (Nat.le_refl _) (Nat.succ_pos _) lhs
    refine ⟨stack₂, value₂, ?_, fun level hlevel => ?_⟩
    · rw [Expr.tokens, run_append, hrun₁, run_cons, step, hlhs]
      exact hrun₂
    · rw [hsettle₂ level (Nat.le_of_lt (Nat.lt_of_le_of_lt hlevel hr)), settle]
      exact if_pos hlevel
  | @unary op operand ho _ ih =>
    obtain ⟨stack', value, hrun, hsettle⟩ := ih (.cons (.unary op) stack ho)
    exact ⟨stack', value, hrun, fun level hlevel => hsettle level (Nat.le_trans hlevel ho)⟩
  | @conditional whenTrue condition whenFalse ht _ _ _ iht ihc ihf =>
    obtain ⟨stack₁, value₁, hrun₁, hsettle₁⟩ := iht (ha.mono (Nat.zero_le _))
    obtain ⟨stack₂, value₂, hrun₂, hsettle₂⟩ :=
      ihc (.cons (.guarded whenTrue) stack (Nat.zero_le _))
    obtain ⟨stack₃, value₃, hrun₃, hsettle₃⟩ :=
      ihf (.cons (.alternative whenTrue condition) stack (Nat.zero_le _))
    have hwhenTrue : settle 1 stack₁ value₁ = (stack, whenTrue) := by
      rw [hsettle₁ 1 ht]
      exact settle_of_admit ha Expr.tight_pos (Nat.zero_le _) Nat.one_pos whenTrue
    have hcondition : settle 0 stack₂ value₂ = (.guarded whenTrue :: stack, condition) :=
      hsettle₂ 0 (Nat.zero_le _)
    refine ⟨stack₃, value₃, ?_, fun level hlevel => ?_⟩
    · rw [Expr.tokens, run_append, hrun₁, run_cons, step, hwhenTrue, run_append, hrun₂, run_cons,
        step, hcondition]
      exact hrun₃
    · rw [hsettle₃ level (Nat.le_trans hlevel (Nat.zero_le _)), settle]
      exact if_pos (Nat.le_zero.mp hlevel)
  | @paren inner _ ih =>
    obtain ⟨stack', value, hrun, hsettle⟩ := ih (.cons .group stack (Nat.zero_le _))
    have hinner : settle 0 stack' value = (.group :: stack, inner) := hsettle 0 (Nat.zero_le _)
    refine ⟨stack, .paren inner, ?_, fun _ _ => rfl⟩
    rw [Expr.tokens, run_cons, step, run_append, hrun, run_cons, step, hinner]
    rfl

theorem result?_tokens {expr : Expr} (h : expr.Bare) :
    ((before []).run expr.tokens).result? = some expr := by
  obtain ⟨stack, value, hrun, hsettle⟩ := run_tokens h (.nil _)
  have hvalue : settle 0 stack value = ([], expr) := hsettle 0 (Nat.zero_le _)
  rw [hrun, result?, hvalue]

end Reader

namespace Expr

variable {expr other : Expr}

theorem Bare.eq_of_spell (he : expr.Bare) (ho : other.Bare)
    (h : Token.spell expr.tokens = Token.spell other.tokens) : expr = other := by
  have ht : expr.tokens = other.tokens := Token.spell_inj he.fits ho.fits h
  have hr := Reader.result?_tokens he
  rw [ht, Reader.result?_tokens ho] at hr
  exact (Option.some.inj hr).symm

inductive Plain : Expr → Prop where
  | name (ident : Identifier) : Plain (.name (.simple ident))
  | integer (value : Nat) : Plain (.literal (.abstract (.integer value)))
  | binary {op : Operator} {lhs rhs : Expr} : Plain lhs → Plain rhs → Plain (.binary op lhs rhs)
  | unary {op : Operator} {operand : Expr} : Plain operand → Plain (.unary op operand)
  | conditional {whenTrue condition whenFalse : Expr} :
      Plain whenTrue → Plain condition → Plain whenFalse →
        Plain (.conditional whenTrue condition whenFalse)
  | paren {inner : Expr} : Plain inner → Plain (.paren inner)

def parenIf (wrap : Bool) (expr : Expr) : Expr :=
  if wrap then .paren expr else expr

/-- A conditional expression in front of `when` keeps its first alternative, and what follows goes
to its last one. -/
def graft : Expr → Expr → Expr → Expr
  | .conditional whenTrue condition whenFalse, condition', whenFalse' =>
    .conditional whenTrue condition (whenFalse.graft condition' whenFalse')
  | whenTrue, condition, whenFalse => .conditional whenTrue condition whenFalse

/-- What the text of an expression says: all parentheses that it shows, and conditional expressions
that are alternatives of others only behind `else`. -/
def reading : Expr → Expr
  | .binary op lhs rhs =>
    .binary op (parenIf (lhs.wrapsLeft op) lhs.reading) (parenIf (rhs.wrapsRight op) rhs.reading)
  | .unary op operand => .unary op (parenIf (operand.wrapsOperand op) operand.reading)
  | .conditional whenTrue condition whenFalse =>
    whenTrue.reading.graft condition.reading whenFalse.reading
  | .paren inner => .paren inner.reading
  | expr => expr

section Graft

variable (whenTrue condition whenFalse : Expr)

theorem level_graft : (whenTrue.graft condition whenFalse).level = 0 := by
  cases whenTrue <;> simp [graft, level]

theorem tokens_graft : (whenTrue.graft condition whenFalse).tokens =
    whenTrue.tokens ++ .joint .whenTrue ::
      (condition.tokens ++ .joint .otherwise :: whenFalse.tokens) := by
  fun_induction graft whenTrue condition whenFalse with
  | case1 t c f c' f' ih => simp [tokens, ih]
  | case2 => rfl

variable {whenTrue condition whenFalse}

theorem Bare.graft (ht : whenTrue.Bare) (hc : condition.Bare) (hf : whenFalse.Bare) :
    (whenTrue.graft condition whenFalse).Bare := by
  induction ht with
  | conditional h hbt hbc _ _ _ ih => exact .conditional h hbt hbc ih
  | name ident => exact .conditional tight_pos (.name ident) hc hf
  | integer value => exact .conditional tight_pos (.integer value) hc hf
  | binary hl hr hbl hbr => exact .conditional (Nat.succ_pos _) (.binary hl hr hbl hbr) hc hf
  | unary ho hb => exact .conditional tight_pos (.unary ho hb) hc hf
  | paren hb => exact .conditional tight_pos (.paren hb) hc hf

end Graft

section Reading

variable {op : Operator} {wrap : Bool}

theorem Bare.parenIf (h : expr.Bare) : (parenIf wrap expr).Bare := by
  cases wrap with
  | true => exact .paren h
  | false => exact h

theorem level_reading (expr : Expr) : expr.reading.level = expr.level := by
  cases expr with
  | conditional => exact level_graft _ _ _
  | _ => rfl

theorem level_le_parenIf_reading {n : Nat} (hn : n ≤ tight) (h : wrap = false → n ≤ expr.level) :
    n ≤ (Expr.parenIf wrap expr.reading).level := by
  cases wrap with
  | true => exact hn
  | false => exact (h rfl).trans_eq expr.level_reading.symm

theorem level_le_of_wrapsLeft (h : expr.wrapsLeft op = false) : op.level ≤ expr.level := by
  cases expr with
  | binary inner =>
    have hle := Nat.not_lt.mp (of_decide_eq_false h)
    exact Nat.succ_le_succ hle
  | conditional => cases h
  | _ => exact (level_lt_tight op).le

theorem level_lt_of_wrapsRight (h : expr.wrapsRight op = false) : op.level < expr.level := by
  cases expr with
  | binary inner =>
    have hlt := Nat.not_le.mp (of_decide_eq_false h)
    exact Nat.succ_lt_succ hlt
  | conditional => cases h
  | _ => exact level_lt_tight op

theorem tight_le_of_wrapsOperand (h : expr.wrapsOperand op = false) : tight ≤ expr.level := by
  cases expr with
  | binary | conditional => cases h
  | _ => exact Nat.le_refl _

theorem Plain.bare_reading (h : expr.Plain) : expr.reading.Bare := by
  induction h with
  | name ident => exact .name ident
  | integer value => exact .integer value
  | @binary op _ _ _ _ ihl ihr =>
    exact .binary (level_le_parenIf_reading (level_lt_tight op).le level_le_of_wrapsLeft)
      (level_le_parenIf_reading (level_lt_tight op) level_lt_of_wrapsRight) ihl.parenIf ihr.parenIf
  | unary _ ih =>
    exact .unary (level_le_parenIf_reading (Nat.le_refl _) tight_le_of_wrapsOperand) ih.parenIf
  | conditional _ _ _ iht ihc ihf => exact iht.graft ihc ihf
  | paren _ ih => exact .paren ih

theorem spell_tokens_paren {text : String} (h : Token.spell expr.tokens = text.toList) :
    Token.spell (Expr.paren expr).tokens = (parenthesize text).toList := by
  simp [tokens, parenthesize, Token.text, h]

theorem spell_tokens_parenIf (wrap : Bool) {text : String}
    (h : Token.spell expr.tokens = text.toList) :
    Token.spell (Expr.parenIf wrap expr).tokens = (wrapIf wrap text).toList := by
  cases wrap with
  | true => exact spell_tokens_paren h
  | false => exact h

theorem Plain.spell_reading (h : expr.Plain) :
    Token.spell expr.reading.tokens = expr.render.toList := by
  induction h with
  | name ident => simp [reading, tokens, Token.text, render, Name.render]
  | integer value =>
    simp [reading, tokens, Token.text, render, Literal.render, AbstractLiteral.render]
  | @binary op lhs rhs _ _ ihl ihr =>
    simp [reading, tokens, Token.text, Joint.word, render, spell_tokens_parenIf _ ihl,
      spell_tokens_parenIf _ ihr]
  | @unary op operand _ ih =>
    simp [reading, tokens, Token.text, render, spell_tokens_parenIf _ ih]
  | conditional _ _ _ iht ihc ihf =>
    simp [reading, tokens_graft, Token.text, Joint.word, render, iht, ihc, ihf]
  | paren _ ih => rw [reading, render, spell_tokens_paren ih]

/-- The text of an expression says its reading and nothing else. -/
theorem Plain.render_eq_iff (he : expr.Plain) (ho : other.Plain) :
    expr.render = other.render ↔ expr.reading = other.reading := by
  rw [← String.toList_inj, ← he.spell_reading, ← ho.spell_reading]
  exact ⟨he.bare_reading.eq_of_spell ho.bare_reading, fun h => by rw [h]⟩

end Reading

/-- Parentheses are taken off around operands and alternatives at any depth. -/
def strip : Expr → Expr
  | .binary op lhs rhs => .binary op lhs.strip rhs.strip
  | .unary op operand => .unary op operand.strip
  | .conditional whenTrue condition whenFalse =>
    .conditional whenTrue.strip condition.strip whenFalse.strip
  | .paren inner => inner.strip
  | expr => expr

/-- Expressions of names, numbers, operators and parentheses. Any operator may stand between two
operands or in front of one. -/
inductive OfOperators : Expr → Prop where
  | name (ident : Identifier) : OfOperators (.name (.simple ident))
  | integer (value : Nat) : OfOperators (.literal (.abstract (.integer value)))
  | binary {op : Operator} {lhs rhs : Expr} :
      OfOperators lhs → OfOperators rhs → OfOperators (.binary op lhs rhs)
  | unary {op : Operator} {operand : Expr} :
      OfOperators operand → OfOperators (.unary op operand)
  | paren {inner : Expr} : OfOperators inner → OfOperators (.paren inner)

theorem OfOperators.plain (h : expr.OfOperators) : expr.Plain := by
  induction h with
  | name ident => exact .name ident
  | integer value => exact .integer value
  | binary _ _ ihl ihr => exact .binary ihl ihr
  | unary _ ih => exact .unary ih
  | paren _ ih => exact .paren ih

theorem strip_parenIf (wrap : Bool) (expr : Expr) : (parenIf wrap expr).strip = expr.strip := by
  cases wrap <;> rfl

theorem OfOperators.strip_reading (h : expr.OfOperators) : expr.reading.strip = expr.strip := by
  induction h with
  | name | integer => rfl
  | binary _ _ ihl ihr => simp only [reading, strip, strip_parenIf, ihl, ihr]
  | unary _ ih => simp only [reading, strip, strip_parenIf, ih]
  | paren _ ih => simp only [reading, strip, ih]

/-- Expressions of operators that have one text differ at most in parentheses that stand in them.
Those that are inserted tell all operator trees apart. -/
theorem operators_strip_eq_of_render_eq (he : expr.OfOperators) (ho : other.OfOperators)
    (h : expr.render = other.render) : expr.strip = other.strip := by
  have hr := (he.plain.render_eq_iff ho.plain).mp h
  rw [← he.strip_reading, hr, ho.strip_reading]

def slope (wrap : Expr → Expr) : Expr :=
  .binary .times (wrap (.binary .minus crest (.literal (.abstract (.integer 2)))))
    (.unary .minus (wrap (.binary .plus (.name (.simple ⟨"\\Crest\\", by decide +kernel⟩)) crest)))
where
  crest : Expr := .name (.simple ⟨"crest", by decide +kernel⟩)

theorem ofOperators_slope {wrap : Expr → Expr}
    (hwrap : ∀ expr : Expr, expr.OfOperators → (wrap expr).OfOperators) :
    (slope wrap).OfOperators :=
  .binary (hwrap _ (.binary (.name _) (.integer 2)))
    (.unary (hwrap _ (.binary (.name _) (.name _))))

theorem slope_strips : (slope id).OfOperators ∧ (slope .paren).OfOperators ∧
    (slope id).render = (slope .paren).render ∧ (slope id).strip = (slope .paren).strip := by
  have hi : (slope id).OfOperators := ofOperators_slope fun _ h => h
  have hp : (slope .paren).OfOperators := ofOperators_slope fun _ h => .paren h
  have hr : (slope id).render = (slope .paren).render := by decide +kernel
  exact ⟨hi, hp, hr, operators_strip_eq_of_render_eq hi hp hr⟩

end Expr

end Vhdl
