import Vhdl.Expr.Render
import Vhdl.Proofs.Spelling

/-! # Tokens of expressions

The text of an expression is a sequence of identifiers, numbers, operators, parentheses and the
words of conditional expressions. Where an operand is expected and where not can be seen from the
tokens before, and with this the text determines the tokens.
-/

namespace Vhdl

open Identifier

namespace Operator

theorem ofSymbol?_symbol (op : Operator) : ofSymbol? op.symbol = some op := by
  cases op <;> decide +kernel

theorem symbol_injective : Function.Injective symbol := by
  intro a b h
  have ha := a.ofSymbol?_symbol
  rw [h, b.ofSymbol?_symbol] at ha
  exact (Option.some.inj ha).symm

theorem space_notMem_symbol (op : Operator) : ' ' ∉ op.symbol.toList := by
  cases op <;> decide +kernel

theorem isSign_eq (op : Operator) :
    op.isSign = op.symbol.toList.head?.any fun c => c = '-' || c = '+' := by
  cases op <;> decide +kernel

theorem symbol_of_isSign {op : Operator} (h : op.isSign = true) :
    op.symbol.toList = op.symbol.toList.head?.toList := by
  cases op with
  | minus | plus => decide +kernel
  | _ => cases h

theorem exists_head_symbol (op : Operator) :
    ∃ c ∈ op.symbol.toList.head?, c ≠ '(' ∧ c.isDigit = false := by
  have h : op.symbol.toList.head?.any (fun c => c != '(' && !c.isDigit) = true := by
    cases op <;> decide +kernel
  simpa [Option.any_eq_true] using h

theorem symbol_cases (op : Operator) :
    op.isSign = false ∧ op.symbol.toList.all isWordChar = true ∧ isReserved op.symbol = true ∨
      ∃ c ∈ op.symbol.toList.head?, isWordChar c = false ∧ c ≠ '\\' := by
  have h : op.isSign = false ∧ op.symbol.toList.all isWordChar = true ∧
      isReserved op.symbol = true ∨
        op.symbol.toList.head?.any (fun c => !isWordChar c && c != '\\') = true := by
    cases op <;> decide +kernel
  simpa [Option.any_eq_true] using h

end Operator

/-- What stands between two operands. -/
inductive Joint where
  | binary (op : Operator)
  | whenTrue
  | otherwise

namespace Joint

def word : Joint → String
  | .binary op => op.symbol
  | .whenTrue => "when"
  | .otherwise => "else"

theorem space_notMem_word (joint : Joint) : ' ' ∉ joint.word.toList := by
  cases joint with
  | binary op => exact op.space_notMem_symbol
  | whenTrue | otherwise => decide

theorem word_injective : Function.Injective word := by
  have hne {op : Operator} {word : String} (hn : Operator.ofSymbol? word = none) :
      op.symbol ≠ word := by
    rintro rfl
    rw [op.ofSymbol?_symbol] at hn
    cases hn
  intro a b h
  cases a with
  | binary op =>
    cases b with
    | binary op' => rw [Operator.symbol_injective h]
    | whenTrue | otherwise => exact absurd h (hne (by decide +kernel))
  | whenTrue =>
    cases b with
    | binary op => exact absurd h.symm (hne (by decide +kernel))
    | whenTrue => rfl
    | otherwise => exact absurd h (by decide)
  | otherwise =>
    cases b with
    | binary op => exact absurd h.symm (hne (by decide +kernel))
    | whenTrue => exact absurd h (by decide)
    | otherwise => rfl

end Joint

/-- A piece of the text of an expression. -/
inductive Token where
  | name (ident : Identifier)
  | integer (value : Nat)
  | unary (op : Operator)
  | opening
  | closing
  | joint (between : Joint)

namespace Token

def text : Token → String
  | .name ident => ident.text
  | .integer value => Nat.repr value
  | .unary op => Expr.unaryText op
  | .opening => "("
  | .closing => ")"
  | .joint between => " " ++ between.word ++ " "

def starts : Token → Bool
  | .name _ | .integer _ | .unary _ | .opening => true
  | .closing | .joint _ => false

def continues : Token → Bool
  | .unary _ | .opening | .joint _ => true
  | .name _ | .integer _ | .closing => false

/-- The tokens can follow where an operand is expected, or where none is. -/
def Fits : Bool → List Token → Prop
  | expected, [] => expected = false
  | expected, token :: rest => token.starts = expected ∧ Fits token.continues rest

def spell (tokens : List Token) : List Char :=
  tokens.flatMap (·.text.toList)

variable {token other : Token} {tokens others : List Token} {rest rest' : List Char}

@[simp] theorem spell_nil : spell [] = [] := rfl

@[simp] theorem spell_cons (token : Token) (tokens : List Token) :
    spell (token :: tokens) = token.text.toList ++ spell tokens :=
  List.flatMap_cons

@[simp] theorem spell_append (tokens others : List Token) :
    spell (tokens ++ others) = spell tokens ++ spell others :=
  List.flatMap_append

theorem space_append_inj {v w : List Char} (hv : ' ' ∉ v) (hw : ' ' ∉ w)
    (h : v ++ ' ' :: rest = w ++ ' ' :: rest') : v = w := by
  have ht {u : List Char} (hu : ' ' ∉ u) (r : List Char) :
      (u ++ ' ' :: r).takeWhile (· != ' ') = u := by
    have hall : ∀ c ∈ u, (c != ' ') = true := by
      intro c hc
      simpa using fun he : c = ' ' => hu (he ▸ hc)
    rw [List.takeWhile_append_of_pos hall]
    simp
  rw [← ht hv rest, h, ht hw rest']

theorem eq_of_not_starts (ht : token.starts = false) (ho : other.starts = false)
    (h : token.text.toList ++ rest = other.text.toList ++ rest') : token = other := by
  cases token with
  | name | integer | unary | opening => cases ht
  | closing =>
    cases other with
    | name | integer | unary | opening => cases ho
    | closing => rfl
    | joint => simp [text] at h
  | joint between =>
    cases other with
    | name | integer | unary | opening => cases ho
    | closing => simp [text] at h
    | joint between' =>
      have hw : between.word.toList ++ ' ' :: rest = between'.word.toList ++ ' ' :: rest' := by
        simpa [text] using h
      have he := space_append_inj between.space_notMem_word between'.space_notMem_word hw
      rw [Joint.word_injective (String.toList_injective he)]

/-- Behind an operand the text cannot continue an identifier or a number. -/
theorem stops_spell (h : Fits false tokens) : Stops (spell tokens) := by
  cases tokens with
  | nil => simp [Stops]
  | cons token rest =>
    cases token with
    | name | integer | unary | opening => cases h.1
    | closing | joint => simp [Stops, text, isWordChar]

section Operands

inductive Lead where
  | name
  | integer
  | unary
  | opening

/-- The kind of the first token of a text, where an operand is expected. -/
def lead (chars : List Char) : Lead :=
  if chars.head? = some '(' then .opening
  else if chars.head?.any Char.isDigit = true then .integer
  else if (cut chars).1 = [] ∨ isReserved (String.ofList (cut chars).1) = true then .unary
  else .name

theorem lead_of_head {chars : List Char} {c : Char} (hc : chars.head? = some c) (hp : c ≠ '(')
    (hd : c.isDigit = false) : lead chars =
      if (cut chars).1 = [] ∨ isReserved (String.ofList (cut chars).1) = true then .unary
      else .name := by
  rw [lead, if_neg (by simpa [hc] using hp), if_neg (by simp [hc, hd])]

theorem isDigit_of_isAlpha {c : Char} (h : c.isAlpha = true) : c.isDigit = false := by
  rw [Bool.eq_false_iff]
  intro hd
  simp only [Char.isAlpha, Char.isUpper, Char.isLower, Char.isDigit, Bool.or_eq_true,
    Bool.and_eq_true, decide_eq_true_eq, UInt32.le_iff_toNat_le, ge_iff_le, Char.reduceVal,
    UInt32.reduceToNat] at h hd
  omega

theorem isReserved_of_backslash {text : String} (h : text.toList.head? = some '\\') :
    isReserved text = false := by
  rw [Bool.eq_false_iff]
  intro hr
  have hw : (reservedWords.all fun word => word.toList.head? != some '\\') = true := by
    decide +kernel
  have hm := List.all_eq_true.mp hw _ (List.contains_iff_mem.mp hr)
  simp [lower, h] at hm

theorem lead_name (ident : Identifier) (hr : Stops rest) :
    lead (ident.text.toList ++ rest) = .name := by
  have hc : ∃ c tail, ident.text.toList = c :: tail ∧ c ≠ '(' ∧ c.isDigit = false ∧
      isReserved ident.text = false := by
    rcases ident.text_cases with ⟨_, inner, ht, _⟩ | ⟨_, ⟨c, tail, ht, ha⟩, _, hn⟩
    · exact ⟨_, _, ht, by decide, by decide, isReserved_of_backslash (by simp [ht])⟩
    · refine ⟨c, tail, ht, ?_, isDigit_of_isAlpha ha, hn⟩
      rintro rfl
      cases ha
  obtain ⟨c, tail, ht, hp, hd, hn⟩ := hc
  rw [lead_of_head (by simp [ht]) hp hd, ident.cut_text hr, String.ofList_toList, if_neg]
  simp [ht, hn]

theorem lead_integer (value : Nat) (rest : List Char) :
    lead ((Nat.repr value).toList ++ rest) = .integer := by
  obtain ⟨c, tail, ht⟩ := List.exists_cons_of_ne_nil (Nat.toDigits_ne_nil (n := value) (b := 10))
  have hd : c.isDigit = true :=
    Nat.isDigit_of_mem_toDigits (by decide) (by decide) (ht ▸ List.mem_cons_self)
  rw [Nat.toList_repr, ht, lead, if_neg, if_pos (by simpa using hd)]
  rintro hp
  obtain rfl : c = '(' := by simpa using hp
  cases hd

theorem toList_unaryText (op : Operator) : (Expr.unaryText op).toList =
    op.symbol.toList ++ if op.isSign = true then [] else [' '] := by
  rw [Expr.unaryText]
  split <;> simp

theorem head?_unaryText (op : Operator) (rest : List Char) :
    ((Expr.unaryText op).toList ++ rest).head? = op.symbol.toList.head? := by
  obtain ⟨c, hc, _⟩ := op.exists_head_symbol
  rw [toList_unaryText, List.append_assoc, List.head?_append, hc]
  rfl

theorem lead_unary (op : Operator) (rest : List Char) :
    lead ((Expr.unaryText op).toList ++ rest) = .unary := by
  obtain ⟨c, hc, hp, hd⟩ := op.exists_head_symbol
  have hh := (head?_unaryText op rest).trans hc
  rw [lead_of_head hh hp hd]
  rcases op.symbol_cases with ⟨hs, hw, hr⟩ | ⟨d, hd, hw, hb⟩
  · have hstops : Stops (' ' :: rest) := by simp [Stops, isWordChar]
    rw [toList_unaryText, hs, List.append_assoc, if_neg Bool.false_ne_true, List.singleton_append,
      cut_word hw hstops, String.ofList_toList, if_pos (.inr hr)]
  · obtain rfl : c = d := Option.some.inj (hc.symm.trans hd)
    obtain ⟨tail, ht⟩ := List.head?_eq_some_iff.mp hh
    rw [cut_of_head (by simpa [hh] using hb), ht, if_pos (.inl (by simp [hw]))]

theorem unaryText_inj {op op' : Operator}
    (h : (Expr.unaryText op).toList ++ rest = (Expr.unaryText op').toList ++ rest') : op = op' := by
  have hh : op.symbol.toList.head? = op'.symbol.toList.head? := by
    rw [← head?_unaryText op rest, h, head?_unaryText]
  have hs : op.isSign = op'.isSign := by rw [op.isSign_eq, op'.isSign_eq, hh]
  refine Operator.symbol_injective (String.toList_injective ?_)
  cases hsign : op.isSign with
  | true =>
    calc op.symbol.toList = op.symbol.toList.head?.toList := Operator.symbol_of_isSign hsign
      _ = op'.symbol.toList.head?.toList := by rw [hh]
      _ = op'.symbol.toList := (Operator.symbol_of_isSign (hs ▸ hsign)).symm
  | false =>
    rw [toList_unaryText, toList_unaryText, ← hs, hsign, if_neg Bool.false_ne_true,
      List.append_assoc, List.append_assoc] at h
    exact space_append_inj op.space_notMem_symbol op'.space_notMem_symbol h

def kind : Token → Lead
  | .name _ => .name
  | .integer _ => .integer
  | .unary _ => .unary
  | .opening | .closing | .joint _ => .opening

theorem lead_spell (ht : token.starts = true) (hf : Fits token.continues tokens) :
    lead (token.text.toList ++ spell tokens) = token.kind := by
  cases token with
  | name ident => exact lead_name ident (stops_spell hf)
  | integer value => exact lead_integer value _
  | unary op => exact lead_unary op _
  | opening => simp [lead, text, kind]
  | closing | joint => cases ht

theorem text_inj_of_stops {v w : String} (hv : cut (v.toList ++ rest) = (v.toList, rest))
    (hw : cut (w.toList ++ rest') = (w.toList, rest')) (h : v.toList ++ rest = w.toList ++ rest') :
    v = w := by
  rw [h, hw, Prod.mk.injEq] at hv
  exact String.toList_injective hv.1.symm

theorem cut_repr (value : Nat) (hr : Stops rest) :
    cut ((Nat.repr value).toList ++ rest) = ((Nat.repr value).toList, rest) := by
  refine cut_word (List.all_eq_true.mpr fun c hc => ?_) hr
  rw [Nat.toList_repr] at hc
  have hd := Nat.isDigit_of_mem_toDigits (by decide) (by decide) hc
  simp [isWordChar, Char.isAlphanum, hd]

theorem eq_of_starts (ht : token.starts = true) (ho : other.starts = true)
    (hf : Fits token.continues tokens) (hf' : Fits other.continues others)
    (h : token.text.toList ++ spell tokens = other.text.toList ++ spell others) :
    token = other := by
  have hk : token.kind = other.kind := by rw [← lead_spell ht hf, h, lead_spell ho hf']
  cases token with
  | closing | joint => cases ht
  | name ident =>
    cases other with
    | name ident' =>
      have he := text_inj_of_stops (ident.cut_text (stops_spell hf))
        (ident'.cut_text (stops_spell hf')) h
      obtain ⟨text, _⟩ := ident
      obtain ⟨text', _⟩ := ident'
      cases he
      rfl
    | closing | joint => cases ho
    | integer | unary | opening => cases hk
  | integer value =>
    cases other with
    | integer value' =>
      have he := text_inj_of_stops (cut_repr value (stops_spell hf))
        (cut_repr value' (stops_spell hf')) h
      rw [Nat.repr_injective he]
    | closing | joint => cases ho
    | name | unary | opening => cases hk
  | unary op =>
    cases other with
    | unary op' => rw [unaryText_inj h]
    | closing | joint => cases ho
    | name | integer | opening => cases hk
  | opening =>
    cases other with
    | opening => rfl
    | closing | joint => cases ho
    | name | integer | unary => cases hk

end Operands

theorem spell_ne_nil (h : Fits false (token :: tokens)) : spell (token :: tokens) ≠ [] := by
  cases token with
  | name | integer | unary | opening => cases h.1
  | closing | joint => simp [text]

/-- The text of tokens that follow each other determines the tokens. -/
theorem spell_inj {expected : Bool} (ht : Fits expected tokens) (ho : Fits expected others)
    (h : spell tokens = spell others) : tokens = others := by
  induction tokens generalizing expected others with
  | nil =>
    cases others with
    | nil => rfl
    | cons other others =>
      obtain rfl : expected = false := ht
      exact absurd h.symm (spell_ne_nil ho)
  | cons token tokens ih =>
    cases others with
    | nil =>
      obtain rfl : expected = false := ho
      exact absurd h (spell_ne_nil ht)
    | cons other others =>
      rw [spell_cons, spell_cons] at h
      obtain rfl : token = other := by
        cases expected with
        | true => exact eq_of_starts ht.1 ho.1 ht.2 ho.2 h
        | false => exact eq_of_not_starts ht.1 ho.1 h
      rw [ih ht.2 ho.2 (List.append_cancel_left h)]

end Token

end Vhdl
