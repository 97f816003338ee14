import Vhdl.Name
import Vhdl.Proofs.Grammar

/-! # Dotted names

A dotted text is cut at the dots with an even number of backslashes in front of them. An identifier
has an even number of backslashes, and each of its dots an odd number in front of it, so that the
identifiers of a name are found again in its text.
-/

namespace Vhdl

namespace Name

/-- Each dot of the segment has an odd number of backslashes in front of it. -/
def Whole (segment : List Char) : Prop :=
  ∀ front back, segment = front ++ '.' :: back → Odd (front.count '\\')

/-- A dot behind the segment has an even number of backslashes in front of it. -/
def Closed (segment : List Char) : Prop :=
  Whole segment ∧ Even (segment.count '\\')

/-- A text cut at those dots that have an even number of backslashes in front of them. -/
inductive Cut : List Char → List (List Char) → Prop where
  | last {segment : List Char} : Whole segment → Cut segment [segment]
  | dot {segment rest : List Char} {segments : List (List Char)} : Closed segment →
      Cut rest segments → Cut (segment ++ '.' :: rest) (segment :: segments)

/-- Whether what follows stands between backslashes, if `inside` says so at the beginning. -/
def flag (inside : Bool) (front : List Char) : Bool :=
  inside ^^ decide (Odd (front.count '\\'))

def WholeFrom (inside : Bool) (segment : List Char) : Prop :=
  ∀ front back, segment = front ++ '.' :: back → flag inside front = true

variable {inside : Bool} {c : Char} {segment rest text : List Char} {segments : List (List Char)}

theorem flag_false : flag false segment = decide (Odd (segment.count '\\')) :=
  Bool.false_xor _

theorem wholeFrom_false : WholeFrom false segment ↔ Whole segment := by
  simp only [WholeFrom, Whole, flag_false, decide_eq_true_eq]

theorem closed_iff : Closed segment ↔ WholeFrom false segment ∧ flag false segment = false := by
  rw [Closed, wholeFrom_false, flag_false, decide_eq_false_iff_not, Nat.not_odd_iff_even]

@[simp] theorem flag_nil (inside : Bool) : flag inside [] = inside := by
  simp [flag]

@[simp] theorem wholeFrom_nil (inside : Bool) : WholeFrom inside [] :=
  fun front back he => by simp at he

@[simp] theorem flag_cons (inside : Bool) (c : Char) (front : List Char) :
    flag inside (c :: front) = flag (inside != (c == '\\')) front := by
  rw [flag, flag, List.count_cons]
  by_cases hc : c = '\\'
  · rw [hc, beq_self_eq_true, if_pos rfl]
    simp only [Nat.odd_add_one, decide_not, Bool.bne_true, Bool.not_xor, Bool.xor_not]
  · rw [beq_eq_false_iff_ne.mpr hc, if_neg Bool.false_ne_true, Nat.add_zero, Bool.bne_false]

@[simp] theorem wholeFrom_cons : WholeFrom inside (c :: rest) ↔
    (c = '.' → inside = true) ∧ WholeFrom (inside != (c == '\\')) rest := by
  constructor
  · intro h
    refine ⟨?_, fun front back he => ?_⟩
    · rintro rfl
      simpa [flag] using h [] rest rfl
    · rw [← flag_cons]
      exact h (c :: front) back (he ▸ rfl)
  · rintro ⟨hc, hr⟩ front back he
    cases front with
    | nil =>
      cases he
      simpa [flag] using hc rfl
    | cons d front =>
      cases he
      rw [flag_cons]
      exact hr front back rfl

theorem cutDots_cons (h : c = '.' → inside = true) : cutDots inside (c :: rest) =
    (c :: (cutDots (inside != (c == '\\')) rest).1, (cutDots (inside != (c == '\\')) rest).2) := by
  have hc : (c = '.' && !inside) = false := by
    by_cases hd : c = '.'
    · rw [h hd, Bool.not_true, Bool.and_false]
    · rw [decide_eq_false hd, Bool.false_and]
  rw [cutDots, hc]
  rfl

theorem cutDots_whole (h : WholeFrom inside segment) : cutDots inside segment = (segment, []) := by
  induction segment generalizing inside with
  | nil => rfl
  | cons c segment ih =>
    obtain ⟨hc, hs⟩ := wholeFrom_cons.mp h
    rw [cutDots_cons hc, ih hs]

theorem cutDots_append (h : WholeFrom inside segment) (hf : flag inside segment = false) :
    cutDots inside (segment ++ '.' :: rest) =
      (segment, (cutDots false rest).1 :: (cutDots false rest).2) := by
  induction segment generalizing inside with
  | nil =>
    obtain rfl : inside = false := (flag_nil inside).symm.trans hf
    rfl
  | cons c segment ih =>
    obtain ⟨hc, hs⟩ := wholeFrom_cons.mp h
    rw [List.cons_append, cutDots_cons hc, ih hs (flag_cons .. ▸ hf)]

theorem cut_cons (hw : WholeFrom false segment)
    (h : segments = [] ∧ text = segment ∨ flag false segment = false ∧
      ∃ rest, text = segment ++ '.' :: rest ∧ Cut rest segments) :
    Cut text (segment :: segments) := by
  rcases h with ⟨rfl, rfl⟩ | ⟨hf, rest, rfl, hr⟩
  · exact .last (wholeFrom_false.mp hw)
  · exact .dot (closed_iff.mpr ⟨hw, hf⟩) hr

/-- The first segment goes to the end, or to a dot from which on the text is cut anew. -/
theorem cutDots_cases (inside : Bool) (text : List Char) :
    WholeFrom inside (cutDots inside text).1 ∧
      ((cutDots inside text).2 = [] ∧ text = (cutDots inside text).1 ∨
        flag inside (cutDots inside text).1 = false ∧
          ∃ rest, text = (cutDots inside text).1 ++ '.' :: rest ∧
            Cut rest (cutDots inside text).2) := by
  -- The flag changes along the text, so that the induction is for both values of it.
  induction text generalizing inside with
  | nil => exact ⟨wholeFrom_nil inside, .inl ⟨rfl, rfl⟩⟩
  | cons c text ih =>
    by_cases hc : c = '.' → inside = true
    · obtain ⟨hw, htail⟩ := ih (inside != (c == '\\'))
      rw [cutDots_cons hc, flag_cons]
      refine ⟨wholeFrom_cons.mpr ⟨hc, hw⟩, ?_⟩
      rcases htail with ⟨hn, ht⟩ | ⟨hf, rest, ht, hr⟩
      · exact .inl ⟨hn, congrArg (c :: ·) ht⟩
      · exact .inr ⟨hf, rest, congrArg (c :: ·) ht, hr⟩
    · obtain ⟨rfl, hi⟩ := Classical.not_imp.mp hc
      obtain rfl : inside = false := by simpa using hi
      obtain ⟨hw, htail⟩ := ih false
      exact ⟨wholeFrom_nil false, .inr ⟨rfl, text, rfl, cut_cons hw htail⟩⟩

theorem cut_iff : Cut text segments ↔
    segments = (cutDots false text).1 :: (cutDots false text).2 := by
  constructor
  · intro h
    induction h with
    | last hw => rw [cutDots_whole (wholeFrom_false.mpr hw)]
    | dot hc _ ih =>
      rw [cutDots_append (closed_iff.mp hc).1 (closed_iff.mp hc).2, ← ih]
  · rintro rfl
    exact cut_cons (cutDots_cases false text).1 (cutDots_cases false text).2

theorem Cut.text_eq (h : Cut text segments) : text = ['.'].intercalate segments := by
  induction h with
  | last => exact (List.intercalate_singleton ..).symm
  | @dot _ _ segments _ hr ih =>
    obtain ⟨next, others, rfl⟩ : ∃ next others, segments = next :: others := by
      cases hr <;> exact ⟨_, _, rfl⟩
    rw [List.intercalate_cons_cons, ← ih, List.append_assoc, List.singleton_append]

theorem cut_intercalate (hn : segments ≠ []) (h : ∀ segment ∈ segments, Closed segment) :
    Cut (['.'].intercalate segments) segments := by
  induction segments with
  | nil => exact absurd rfl hn
  | cons segment segments ih =>
    obtain ⟨hc, hs⟩ := List.forall_mem_cons.mp h
    cases segments with
    | nil =>
      rw [List.intercalate_singleton]
      exact .last hc.1
    | cons next segments =>
      rw [List.intercalate_cons_cons, List.append_assoc, List.singleton_append]
      exact .dot hc (ih (List.cons_ne_nil _ _) hs)

theorem flag_append (inside : Bool) (front back : List Char) :
    flag inside (front ++ back) = flag (flag inside front) back := by
  induction front generalizing inside with
  | nil => rw [List.nil_append, flag_nil]
  | cons c front ih => rw [List.cons_append, flag_cons, ih, ← flag_cons]

theorem wholeFrom_append {front back : List Char} : WholeFrom inside (front ++ back) ↔
    WholeFrom inside front ∧ WholeFrom (flag inside front) back := by
  induction front generalizing inside with
  | nil => simp
  | cons c front ih =>
    rw [List.cons_append, wholeFrom_cons, ih, wholeFrom_cons, flag_cons, and_assoc]

end Name

open Name Identifier

theorem Identifier.wholeFrom_items {items : List (List Char)} (h : ∀ item ∈ items, Item item) :
    WholeFrom true items.flatten ∧ flag true items.flatten = true := by
  induction items with
  | nil => exact ⟨wholeFrom_nil true, flag_nil true⟩
  | cons item items ih =>
    obtain ⟨hi, hs⟩ := List.forall_mem_cons.mp h
    have hitem : WholeFrom true item ∧ flag true item = true := by
      cases hi with
      | doubled => simp
      | graphic _ hb =>
        have hc := beq_eq_false_iff_ne.mpr hb
        simp [hc]
    rw [List.flatten_cons, wholeFrom_append, flag_append, hitem.2]
    exact ⟨⟨hitem.1, (ih hs).1⟩, (ih hs).2⟩

theorem Identifier.closed_of_word {word : List Char} (h : word.all isWordChar = true) :
    Closed word := by
  have hw := List.all_eq_true.mp h
  constructor
  · rintro front back rfl
    cases hw '.' (by simp)
  · have hn : '\\' ∉ word := fun hm => Bool.false_ne_true (not_isWordChar_backslash ▸ hw _ hm)
    rw [List.count_eq_zero_of_not_mem hn]
    exact Even.zero

theorem Identifier.closed_text (ident : Identifier) : Closed ident.text.toList := by
  rcases ident.text_cases with ⟨_, inner, ht, hi⟩ | ⟨_, _, hw, _⟩
  · obtain ⟨items, hitems, rfl⟩ := (innerFault?_eq_none_iff inner).mp hi
    obtain ⟨hw, hf⟩ := wholeFrom_items hitems
    rw [ht, closed_iff, wholeFrom_cons, flag_cons]
    change (_ ∧ WholeFrom true (items.flatten ++ _)) ∧ flag true (items.flatten ++ _) = false
    rw [wholeFrom_append, flag_append, hf]
    simp [hw]
  · exact closed_of_word hw

theorem Identifier.closed_of_lower_eq_all {word : String} (h : lower word = "all") :
    Closed word.toList := by
  refine closed_of_word (List.all_eq_true.mpr fun c hc => ?_)
  have hm : c.toLower ∈ (lower word).toList := by
    rw [lower, String.toList_ofList]
    exact List.mem_map_of_mem hc
  have hall : "all".toList.all isWordChar = true := by decide
  rw [← isWordChar_toLower]
  exact List.all_eq_true.mp hall _ (h ▸ hm)

theorem Identifier.lower_text_ne_all (ident : Identifier) : lower ident.text ≠ "all" := by
  intro h
  rcases ident.text_cases with ⟨_, inner, ht, _⟩ | ⟨_, _, _, hr⟩
  · have hl := congrArg String.toList h
    simp [lower, ht] at hl
  · rw [isReserved, h] at hr
    exact absurd hr (by decide +kernel)

namespace Name

/-- The name that continues a name by identifiers, and by `all` if it `ends` so. -/
def chain (base : Name) : List Identifier → (ends : Bool) → Name
  | [], false => base
  | [], true => .all base
  | ident :: idents, ends => chain (.selected base ident) idents ends

variable {base name : Name} {ids idents : List Identifier} {ends : Bool}

theorem chain_true (base : Name) (idents : List Identifier) :
    chain base idents true = .all (chain base idents false) := by
  induction idents generalizing base with
  | nil => rfl
  | cons ident idents ih => exact ih (.selected base ident)

theorem chain_concat (base : Name) (idents : List Identifier) (ident : Identifier) :
    chain base (idents ++ [ident]) false = .selected (chain base idents false) ident := by
  induction idents generalizing base with
  | nil => rfl
  | cons head idents ih => exact ih (.selected base head)

theorem segments?_chain (h : base.segments? = some (ids, false)) :
    (chain base idents ends).segments? = some (ids ++ idents, ends) := by
  induction idents generalizing base ids with
  | nil => cases ends <;> simp [chain, segments?, h]
  | cons ident idents ih =>
    have hs : (Name.selected base ident).segments? = some (ids ++ [ident], false) := by
      rw [segments?, h]
    rw [chain, ih hs, List.append_assoc, List.singleton_append]

/-- Exactly the chains of identifiers have segments. -/
theorem segments?_eq_some_iff : name.segments? = some (ids, ends) ↔
    ∃ first rest, ids = first :: rest ∧ name = chain (.simple first) rest ends := by
  constructor
  · intro h
    fun_induction segments? name generalizing ids ends with
    | case1 ident =>
      cases h
      exact ⟨ident, [], rfl, rfl⟩
    | case2 base ident idents hb ih =>
      cases h
      obtain ⟨first, rest, rfl, rfl⟩ := ih hb
      exact ⟨first, rest ++ [ident], rfl, (chain_concat ..).symm⟩
    | case4 base idents hb ih =>
      cases h
      obtain ⟨first, rest, rfl, rfl⟩ := ih hb
      exact ⟨first, rest, rfl, (chain_true ..).symm⟩
    | case3 | case5 | case6 => cases h
  · rintro ⟨first, rest, rfl, rfl⟩
    have hs : (Name.simple first).segments? = some ([first], false) := by rw [segments?]
    exact segments?_chain hs

theorem render_chain (base : Name) (idents : List Identifier) (ends : Bool) :
    (chain base idents ends).render = ".".intercalate
      (base.render :: idents.map Identifier.text ++ if ends then ["all"] else []) := by
  induction idents generalizing base with
  | nil =>
    cases ends with
    | false => simp [chain]
    | true =>
      have hall : ".all" = "." ++ "all" := by decide
      simp [chain, render, hall, String.intercalate_cons_cons, String.append_assoc]
  | cons ident idents ih =>
    rw [chain, ih, render, List.map_cons, List.cons_append, List.cons_append, List.cons_append,
      String.intercalate_cons_append, String.intercalate_cons_cons]

def Ending (ending : Option String) : Prop :=
  ∀ word ∈ ending, lower word = "all"

def written (idents : List Identifier) (ending : Option String) : List String :=
  idents.map Identifier.text ++ ending.toList

/-- Behind others, the segment is neither an identifier nor a final `all`. -/
def Refused (segment : String) (back : List String) (fault : Fault) : Prop :=
  fault? segment = some fault ∧ (back = [] → lower segment ≠ "all")

variable {text segment first : String} {segments back rest : List String} {ending : Option String}
  {fault : Fault}

theorem select_text (base : Name) (ident : Identifier) (segments : List String) :
    select base (ident.text :: segments) = select (.selected base ident) segments := by
  have ht : Identifier.ofString ident.text = .ok ident := ofString_eq_ok_iff.mpr rfl
  cases segments with
  | nil =>
    simp only [select, if_neg ident.lower_text_ne_all, ht]
    rfl
  | cons => rw [select, ht]

theorem select_written (base : Name) (idents : List Identifier) (h : Ending ending) :
    select base (written idents ending) = .ok (chain base idents ending.isSome) := by
  induction idents generalizing base with
  | nil =>
    cases ending with
    | none => rfl
    | some word => exact if_pos (h word rfl)
  | cons ident idents ih => exact (select_text base ident _).trans (ih (.selected base ident))

theorem select_refused (base : Name) (idents : List Identifier) (h : Refused segment back fault) :
    select base (idents.map Identifier.text ++ segment :: back) =
      .error (.invalidIdentifier segment fault) := by
  have he : Identifier.ofString segment = .error (.invalidIdentifier segment fault) :=
    ofString_eq_error_iff.mpr ⟨fault, h.1, rfl⟩
  induction idents generalizing base with
  | nil =>
    cases back with
    | nil =>
      rw [List.map_nil, List.nil_append, select, if_neg (h.2 rfl), he]
      rfl
    | cons => rw [List.map_nil, List.nil_append, select, he]
  | cons ident idents ih => exact (select_text base ident _).trans (ih (.selected base ident))

theorem written_or_refused (segments : List String) :
    (∃ idents ending, Ending ending ∧ segments = written idents ending) ∨
      ∃ idents segment back fault, Refused segment back fault ∧
        segments = List.map Identifier.text idents ++ segment :: back := by
  induction segments with
  | nil => exact .inl ⟨[], none, by rintro _ ⟨⟩, rfl⟩
  | cons segment segments ih =>
    cases hf : fault? segment with
    | none =>
      let ident : Identifier := ⟨segment, hf⟩
      rcases ih with ⟨idents, ending, he, rfl⟩ | ⟨idents, other, back, fault, hr, rfl⟩
      · exact .inl ⟨ident :: idents, ending, he, rfl⟩
      · exact .inr ⟨ident :: idents, other, back, fault, hr, rfl⟩
    | some fault =>
      by_cases hall : segments = [] ∧ lower segment = "all"
      · obtain ⟨rfl, hl⟩ := hall
        refine .inl ⟨[], some segment, ?_, rfl⟩
        rintro _ ⟨⟩
        exact hl
      · exact .inr ⟨[], segment, segments, fault, ⟨hf, fun hn hl => hall ⟨hn, hl⟩⟩, rfl⟩

theorem ofDotted_of_cut (h : Cut text.toList ((first :: rest).map String.toList)) :
    ofDotted text = (Identifier.ofString first).bind fun ident => select (.simple ident) rest := by
  have hc := cut_iff.mp h
  rw [List.map_cons, List.cons.injEq] at hc
  have hm : (rest.map String.toList).map String.ofList = rest := by simp
  rw [ofDotted]
  simp only [← hc.1, ← hc.2, hm, String.ofList_toList]
  cases Identifier.ofString first <;> rfl

/-- A text spells a chain and is read as this chain, or it fails at the first segment that is not
admitted. -/
theorem ofDotted_cases (h : Cut text.toList (segments.map String.toList)) :
    (∃ first rest ending, Ending ending ∧ segments = written (first :: rest) ending ∧
      ofDotted text = .ok (chain (.simple first) rest ending.isSome)) ∨
    ∃ idents segment back fault, fault? segment = some fault ∧
      ¬ (idents ≠ [] ∧ back = [] ∧ lower segment = "all") ∧
      segments = List.map Identifier.text idents ++ segment :: back ∧
      ofDotted text = .error (.invalidIdentifier segment fault) := by
  cases segments with
  | nil => cases cut_iff.mp h
  | cons head rest =>
    have hd := ofDotted_of_cut h
    cases hf : fault? head with
    | none =>
      obtain ⟨first, rfl⟩ : ∃ first : Identifier, first.text = head := ⟨⟨head, hf⟩, rfl⟩
      rw [ofString_eq_ok_iff.mpr rfl] at hd
      rcases written_or_refused rest with
        ⟨idents, ending, he, rfl⟩ | ⟨idents, segment, back, fault, hr, rfl⟩
      · exact .inl ⟨first, idents, ending, he, rfl, hd.trans (select_written _ idents he)⟩
      · refine .inr ⟨first :: idents, segment, back, fault, hr.1, ?_, rfl,
          hd.trans (select_refused _ idents hr)⟩
        exact fun ⟨_, hn, hl⟩ => hr.2 hn hl
    | some fault =>
      rw [ofString_eq_error_iff.mpr ⟨fault, hf, rfl⟩] at hd
      exact .inr ⟨[], head, rest, fault, hf, fun hn => hn.1 rfl, rfl, hd⟩

theorem exists_cut (text : String) :
    ∃ segments : List String, Cut text.toList (segments.map String.toList) := by
  refine ⟨((cutDots false text.toList).1 :: (cutDots false text.toList).2).map String.ofList, ?_⟩
  rw [cut_iff]
  simp

theorem eq_intercalate_of_cut (h : Cut text.toList (segments.map String.toList)) :
    text = ".".intercalate segments := by
  rw [← String.toList_inj, h.text_eq, String.toList_intercalate]
  rfl

theorem cut_written (first : Identifier) (rest : List Identifier) (h : Ending ending) :
    Cut (".".intercalate (written (first :: rest) ending)).toList
      ((written (first :: rest) ending).map String.toList) := by
  rw [String.toList_intercalate]
  refine cut_intercalate (by simp [written]) fun chars hc => ?_
  obtain ⟨segment, hs, rfl⟩ := List.mem_map.mp hc
  rcases List.mem_append.mp hs with hs | hs
  · obtain ⟨ident, _, rfl⟩ := List.mem_map.mp hs
    exact ident.closed_text
  · exact closed_of_lower_eq_all (h segment (by simpa using hs))

theorem ofDotted_eq_ok_iff : ofDotted text = .ok name ↔ ∃ first rest ending, Ending ending ∧
    text = ".".intercalate (written (first :: rest) ending) ∧
      name = chain (.simple first) rest ending.isSome := by
  constructor
  · intro h
    obtain ⟨segments, hc⟩ := exists_cut text
    rcases ofDotted_cases hc with ⟨first, rest, ending, he, rfl, hd⟩ | ⟨_, _, _, _, _, _, _, hd⟩
    · exact ⟨first, rest, ending, he, eq_intercalate_of_cut hc, Except.ok.inj (h.symm.trans hd)⟩
    · cases h.symm.trans hd
  · rintro ⟨first, rest, ending, he, rfl, rfl⟩
    have hc : Cut (".".intercalate (written (first :: rest) ending)).toList
        ((first.text :: written rest ending).map String.toList) := cut_written first rest he
    rw [ofDotted_of_cut hc, ofString_eq_ok_iff.mpr rfl]
    exact select_written _ rest he

theorem ofDotted_render (h : name.segments? = some (ids, ends)) :
    ofDotted name.render = .ok name := by
  obtain ⟨first, rest, _, rfl⟩ := segments?_eq_some_iff.mp h
  refine ofDotted_eq_ok_iff.mpr ⟨first, rest, if ends then some "all" else none, ?_, ?_, ?_⟩
  · cases ends <;> rintro _ ⟨⟩
    decide
  · rw [render_chain, render]
    cases ends <;> rfl
  · cases ends <;> rfl

theorem text_of_ofDotted (h : ofDotted text = .ok name) : text = name.render ∨
    ∃ base word, name = .all base ∧ lower word = "all" ∧ text = base.render ++ "." ++ word := by
  obtain ⟨first, rest, ending, he, rfl, rfl⟩ := ofDotted_eq_ok_iff.mp h
  cases ending with
  | none =>
    left
    rw [render_chain, render]
    rfl
  | some word =>
    refine .inr ⟨chain (.simple first) rest false, word, chain_true .., he word rfl, ?_⟩
    rw [render_chain, render, written,
      String.intercalate_append_of_ne_nil (by simp) (by simp)]
    simp

theorem admitted_of_written {first : Identifier} {idents : List Identifier} {front : List String}
    (he : Ending ending) (h : written (first :: idents) ending = front ++ segment :: back) :
    fault? segment = none ∨ front ≠ [] ∧ back = [] ∧ lower segment = "all" := by
  have hmem : ∀ {others}, segment ∈ List.map Identifier.text others → fault? segment = none := by
    intro others hm
    obtain ⟨ident, _, rfl⟩ := List.mem_map.mp hm
    exact ident.valid
  cases ending with
  | none =>
    rw [written, Option.toList_none, List.append_nil] at h
    exact .inl (hmem (h ▸ List.mem_append_right front List.mem_cons_self))
  | some word =>
    rw [written, Option.toList_some] at h
    rcases List.eq_nil_or_concat back with rfl | ⟨middle, last, rfl⟩
    · obtain ⟨hfront, hword⟩ := List.append_inj' h rfl
      cases hword
      exact .inr ⟨hfront ▸ List.cons_ne_nil _ _, rfl, he segment rfl⟩
    · rw [List.concat_eq_append, ← List.cons_append, ← List.append_assoc] at h
      have hidents := (List.append_inj' h rfl).1
      exact .inl (hmem (hidents ▸ List.mem_append_right front List.mem_cons_self))

theorem ofDotted_fails_iff (h : Cut text.toList (segments.map String.toList)) :
    (∃ diagnostic, ofDotted text = .error diagnostic) ↔
      ∃ front segment back, segments = front ++ segment :: back ∧ fault? segment ≠ none ∧
        ¬ (front ≠ [] ∧ back = [] ∧ lower segment = "all") := by
  rcases ofDotted_cases h with
    ⟨first, rest, ending, he, hs, hd⟩ | ⟨idents, segment, back, fault, hf, hn, hs, hd⟩
  · refine iff_of_false (fun ⟨_, hx⟩ => by cases hd.symm.trans hx) ?_
    rintro ⟨front, segment, back, hw, hf, hn⟩
    exact (admitted_of_written he (hs.symm.trans hw)).elim hf hn
  · refine iff_of_true ⟨_, hd⟩ ⟨_, segment, back, hs, by simp [hf], fun ⟨hi, ha⟩ => hn ⟨?_, ha⟩⟩
    rintro rfl
    exact hi rfl

/-- Names with segments are read back from their text as they are. What is read has segments, and
its text is the one it was read from but for the case of a final `all`. A text is cut in one way at
the dots outside of backslashes, and fails exactly if a segment is no identifier, where `all` may
stand behind others at the end. -/
theorem dotted_exact (name : Name) (text : String) :
    (name.segments?.isSome = true → ofDotted name.render = .ok name) ∧
    (ofDotted text = .ok name → name.segments?.isSome = true ∧
      (text = name.render ∨ ∃ base word, name = .all base ∧ lower word = "all" ∧
        text = base.render ++ "." ++ word)) ∧
    ∃ segments : List String, Cut text.toList (segments.map String.toList) ∧
      (∀ others, Cut text.toList others → others = segments.map String.toList) ∧
      ((∃ diagnostic, ofDotted text = .error diagnostic) ↔
        ∃ front segment back, segments = front ++ segment :: back ∧
          ¬ (BasicSpelling segment ∨ ExtendedSpelling segment) ∧
          ¬ (front ≠ [] ∧ back = [] ∧ lower segment = "all")) := by
  refine ⟨fun h => ?_, fun h => ⟨?_, text_of_ofDotted h⟩, ?_⟩
  · obtain ⟨_, hs⟩ := Option.isSome_iff_exists.mp h
    exact ofDotted_render hs
  · obtain ⟨first, rest, ending, _, _, rfl⟩ := ofDotted_eq_ok_iff.mp h
    exact Option.isSome_iff_exists.mpr ⟨_, segments?_eq_some_iff.mpr ⟨first, rest, rfl, rfl⟩⟩
  · obtain ⟨segments, hc⟩ := exists_cut text
    refine ⟨segments, hc, fun others ho => ?_, ?_⟩
    · exact (cut_iff.mp ho).trans (cut_iff.mp hc).symm
    · simp only [← fault?_eq_none_iff]
      exact ofDotted_fails_iff hc

def shelf : Name :=
  .all (.selected (.simple ⟨"shelf", by decide +kernel⟩) ⟨"\\odd.name\\", by decide +kernel⟩)

theorem shelf_dotted : shelf.segments?.isSome = true ∧ ofDotted shelf.render = .ok shelf ∧
    ofDotted "shelf.\\odd.name\\.ALL" = .ok shelf ∧
    ∃ base word, shelf = .all base ∧ lower word = "all" ∧
      "shelf.\\odd.name\\.ALL" = base.render ++ "." ++ word := by
  have hs : shelf.segments?.isSome = true := by decide +kernel
  have hok : ofDotted "shelf.\\odd.name\\.ALL" = .ok shelf :=
    ofDotted_eq_ok_iff.mpr ⟨_, [_], some "ALL", by rintro _ ⟨⟩; decide, by decide +kernel, rfl⟩
  obtain ⟨hread, hwritten, _⟩ := dotted_exact shelf "shelf.\\odd.name\\.ALL"
  refine ⟨hs, hread hs, hok, (hwritten hok).2.resolve_left ?_⟩
  decide +kernel

end Name

end Vhdl
