import Vhdl.Proofs.Reading

/-! # Conditional expressions as text

No parentheses are written around the alternatives of a conditional expression. Behind `else` none
are needed, but a conditional expression that stands in front of `when` has the text of another
one, which is nested to the right. Up to this the text tells all conditional expressions apart.
-/

namespace Vhdl

namespace Expr

inductive OfConditionals : Expr → Prop where
  | name (ident : Identifier) : OfConditionals (.name (.simple ident))
  | conditional {whenTrue condition whenFalse : Expr} :
      OfConditionals whenTrue → OfConditionals condition → OfConditionals whenFalse →
        OfConditionals (.conditional whenTrue condition whenFalse)
  | paren {inner : Expr} : OfConditionals inner → OfConditionals (.paren inner)

def isConditional : Expr → Bool
  | .conditional _ _ _ => true
  | _ => false

/-- No conditional expression stands in front of `when` without parentheses. -/
inductive RightNested : Expr → Prop where
  | name (ident : Identifier) : RightNested (.name (.simple ident))
  | conditional {whenTrue condition whenFalse : Expr} (h : whenTrue.isConditional = false) :
      RightNested whenTrue → RightNested condition → RightNested whenFalse →
        RightNested (.conditional whenTrue condition whenFalse)
  | paren {inner : Expr} : RightNested inner → RightNested (.paren inner)

variable {expr other whenTrue condition whenFalse : Expr}

theorem OfConditionals.plain (h : expr.OfConditionals) : expr.Plain := by
  induction h with
  | name ident => exact .name ident
  | conditional _ _ _ iht ihc ihf => exact .conditional iht ihc ihf
  | paren _ ih => exact .paren ih

theorem graft_of_not_conditional (h : whenTrue.isConditional = false) :
    whenTrue.graft condition whenFalse = .conditional whenTrue condition whenFalse := by
  cases whenTrue with
  | conditional => cases h
  | _ => rfl

theorem isConditional_graft : (whenTrue.graft condition whenFalse).isConditional = true := by
  cases whenTrue <;> rfl

theorem isConditional_reading (expr : Expr) : expr.reading.isConditional = expr.isConditional := by
  cases expr with
  | conditional => exact isConditional_graft
  | _ => rfl

theorem RightNested.reading_eq (h : expr.RightNested) : expr.reading = expr := by
  induction h with
  | name => rfl
  | conditional ht _ _ _ iht ihc ihf =>
    rw [reading, iht, ihc, ihf, graft_of_not_conditional ht]
  | paren _ ih => rw [reading, ih]

theorem RightNested.graft (ht : whenTrue.RightNested) (hc : condition.RightNested)
    (hf : whenFalse.RightNested) : (whenTrue.graft condition whenFalse).RightNested := by
  induction ht with
  | name ident => exact .conditional rfl (.name ident) hc hf
  | conditional h htrue hcond _ _ _ ih => exact .conditional h htrue hcond ih
  | paren h => exact .conditional rfl (.paren h) hc hf

theorem OfConditionals.rightNested_reading (h : expr.OfConditionals) :
    expr.reading.RightNested := by
  induction h with
  | name ident => exact .name ident
  | conditional _ _ _ iht ihc ihf => exact iht.graft ihc ihf
  | paren _ ih => exact .paren ih

theorem RightNested.ofConditionals (h : expr.RightNested) : expr.OfConditionals := by
  induction h with
  | name ident => exact .name ident
  | conditional _ _ _ _ iht ihc ihf => exact .conditional iht ihc ihf
  | paren _ ih => exact .paren ih

section Weight

/-! An expression that is not nested to the right is another one than its reading, also without
parentheses: the conditional expressions to the left of others become fewer. -/

def conditionals : Expr → Nat
  | .conditional whenTrue condition whenFalse =>
    whenTrue.conditionals + condition.conditionals + whenFalse.conditionals + 1
  | .paren inner => inner.conditionals
  | _ => 0

/-- For each conditional expression, those in front of its `when` are counted. -/
def leftWeight : Expr → Nat
  | .conditional whenTrue condition whenFalse =>
    whenTrue.conditionals + whenTrue.leftWeight + condition.leftWeight + whenFalse.leftWeight
  | .paren inner => inner.leftWeight
  | _ => 0

theorem OfConditionals.conditionals_strip (h : expr.OfConditionals) :
    expr.strip.conditionals = expr.conditionals := by
  induction h with
  | name => rfl
  | conditional _ _ _ iht ihc ihf => simp only [strip, conditionals, iht, ihc, ihf]
  | paren _ ih => exact ih

theorem OfConditionals.leftWeight_strip (h : expr.OfConditionals) :
    expr.strip.leftWeight = expr.leftWeight := by
  induction h with
  | name => rfl
  | conditional ht _ _ iht ihc ihf =>
    simp only [strip, leftWeight, ht.conditionals_strip, iht, ihc, ihf]
  | paren _ ih => exact ih

theorem conditionals_graft (whenTrue condition whenFalse : Expr) :
    (whenTrue.graft condition whenFalse).conditionals =
      (Expr.conditional whenTrue condition whenFalse).conditionals := by
  fun_induction graft whenTrue condition whenFalse with
  | case1 t c f c' f' ih =>
    simp only [conditionals] at ih ⊢
    omega
  | case2 => rfl

theorem leftWeight_graft_le (whenTrue condition whenFalse : Expr) :
    (whenTrue.graft condition whenFalse).leftWeight ≤
      (Expr.conditional whenTrue condition whenFalse).leftWeight := by
  fun_induction graft whenTrue condition whenFalse with
  | case1 t c f c' f' ih =>
    simp only [leftWeight, conditionals] at ih ⊢
    omega
  | case2 => exact Nat.le_refl _

theorem leftWeight_graft_lt (condition whenFalse : Expr) (h : whenTrue.isConditional = true) :
    (whenTrue.graft condition whenFalse).leftWeight <
      (Expr.conditional whenTrue condition whenFalse).leftWeight := by
  cases whenTrue with
  | conditional t c f =>
    have hle := leftWeight_graft_le f condition whenFalse
    simp only [graft, leftWeight, conditionals] at hle ⊢
    omega
  | _ => cases h

theorem OfConditionals.conditionals_reading (h : expr.OfConditionals) :
    expr.reading.conditionals = expr.conditionals := by
  induction h with
  | name => rfl
  | conditional _ _ _ iht ihc ihf =>
    simp only [reading, conditionals_graft, conditionals, iht, ihc, ihf]
  | paren _ ih => exact ih

theorem OfConditionals.leftWeight_reading (h : expr.OfConditionals) :
    expr.reading.leftWeight ≤ expr.leftWeight ∧
      (expr.reading.leftWeight = expr.leftWeight → expr.RightNested) := by
  induction h with
  | name ident => exact ⟨Nat.le_refl _, fun _ => .name ident⟩
  | @conditional t c f ht hc hf iht ihc ihf =>
    have hle := leftWeight_graft_le t.reading c.reading f.reading
    have hlt (h : t.isConditional = true) :=
      leftWeight_graft_lt c.reading f.reading (t.isConditional_reading.trans h)
    simp only [reading, leftWeight, ht.conditionals_reading] at hle hlt ⊢
    refine ⟨by omega, fun he => .conditional ?_ (iht.2 (by omega)) (ihc.2 (by omega))
      (ihf.2 (by omega))⟩
    rw [Bool.eq_false_iff]
    intro hcond
    have := hlt hcond
    omega
  | paren _ ih => exact ⟨ih.1, fun he => .paren (ih.2 he)⟩

end Weight

/-- An expression that is not nested to the right has a text that says something else. -/
theorem OfConditionals.strip_reading_iff (h : expr.OfConditionals) :
    expr.reading.strip = expr.strip ↔ expr.RightNested := by
  constructor
  · intro hs
    refine h.leftWeight_reading.2 ?_
    rw [← h.leftWeight_strip, ← hs, h.rightNested_reading.ofConditionals.leftWeight_strip]
  · intro hr
    rw [hr.reading_eq]

/-- Two expressions have one text exactly if they have one reading. The reading of an expression is
one with its text that is nested to the right, and without parentheses it is the same only if the
expression is so itself. Expressions that are nested to the right are thus told apart, with all
their parentheses. -/
theorem conditional_texts (he : expr.OfConditionals) (ho : other.OfConditionals) :
    (expr.render = other.render ↔ expr.reading = other.reading) ∧
      (expr.reading.RightNested ∧ expr.reading.render = expr.render) ∧
      (expr.reading.strip = expr.strip ↔ expr.RightNested) ∧
      (expr.RightNested → other.RightNested → (expr.render = other.render ↔ expr = other)) := by
  have hiff := he.plain.render_eq_iff ho.plain
  have hr := he.rightNested_reading
  have hrender := (hr.ofConditionals.plain.render_eq_iff he.plain).mpr hr.reading_eq
  refine ⟨hiff, ⟨hr, hrender⟩, he.strip_reading_iff, fun hn hn' => ?_⟩
  rw [hiff, hn.reading_eq, hn'.reading_eq]

def shore (group : Expr → Expr → Expr → Expr → Expr → Expr) : Expr :=
  group (.name (.simple ⟨"low", by decide +kernel⟩)) (.name (.simple ⟨"dry", by decide +kernel⟩))
    (.name (.simple ⟨"mid", by decide +kernel⟩)) (.name (.simple ⟨"wet", by decide +kernel⟩))
    (.name (.simple ⟨"high", by decide +kernel⟩))

def leftward (wrap : Expr → Expr) (first condition second condition' third : Expr) : Expr :=
  .conditional (wrap (.conditional first condition second)) condition' third

def rightward (first condition second condition' third : Expr) : Expr :=
  .conditional first condition (.conditional second condition' third)

theorem ofConditionals_shore : (shore rightward).OfConditionals ∧
    (shore (leftward id)).OfConditionals ∧ (shore (leftward .paren)).OfConditionals :=
  ⟨.conditional (.name _) (.name _) (.conditional (.name _) (.name _) (.name _)),
    .conditional (.conditional (.name _) (.name _) (.name _)) (.name _) (.name _),
    .conditional (.paren (.conditional (.name _) (.name _) (.name _))) (.name _) (.name _)⟩

theorem shore_texts_differ : (shore rightward).RightNested ∧
    (shore (leftward .paren)).RightNested ∧
      (shore rightward).render ≠ (shore (leftward .paren)).render := by
  have hr : (shore rightward).RightNested :=
    .conditional rfl (.name _) (.name _) (.conditional rfl (.name _) (.name _) (.name _))
  have hl : (shore (leftward .paren)).RightNested :=
    .conditional rfl (.paren (.conditional rfl (.name _) (.name _) (.name _))) (.name _) (.name _)
  obtain ⟨hor, _, hol⟩ := ofConditionals_shore
  refine ⟨hr, hl, fun h => ?_⟩
  have he := ((conditional_texts hor hol).2.2.2 hr hl).mp h
  simp [shore, rightward, leftward] at he

/-- Without parentheses `low when dry else mid when wet else high` is the text of both. -/
theorem shore_text_ambiguous : (shore rightward).OfConditionals ∧
    (shore (leftward id)).OfConditionals ∧
      (shore rightward).render = (shore (leftward id)).render ∧
      (shore rightward).strip ≠ (shore (leftward id)).strip := by
  obtain ⟨hor, hol, _⟩ := ofConditionals_shore
  refine ⟨hor, hol, by decide +kernel, fun h => ?_⟩
  simp [shore, rightward, leftward, strip] at h

end Expr

end Vhdl
