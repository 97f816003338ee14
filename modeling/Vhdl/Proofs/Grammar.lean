import Vhdl.Proofs.Spelling

/-! # The grammar of identifiers

A text is accepted exactly if it is a basic or an extended identifier of the grammar. Two
identifiers are equal exactly if they have the same text, or are basic and differ in case only, and
a text names an identifier exactly if it is accepted as one that is equal to it.
-/

namespace Vhdl

section Bisection

variable {words : Array String} {word : String} {i m : Nat}

theorem sorted_le (hs : words.toList.Pairwise (· < ·)) (hi : i < words.size) (hm : m < words.size)
    (h : i ≤ m) : words[i] ≤ words[m] := by
  rcases h.eq_or_lt with rfl | hlt
  · exact le_rfl
  · exact (List.pairwise_iff_getElem.mp hs i m hi hm hlt).le

theorem lt_of_getElem_lt (hs : words.toList.Pairwise (· < ·)) (hm : m < words.size)
    (hlt : words[m] < word) (hw : words[i]? = some word) : m < i := by
  obtain ⟨hi, rfl⟩ := Array.getElem?_eq_some_iff.mp hw
  by_contra hle
  exact (sorted_le hs hi hm (by omega)).not_gt hlt

theorem lt_of_lt_getElem (hs : words.toList.Pairwise (· < ·)) (hm : m < words.size)
    (hlt : word < words[m]) (hw : words[i]? = some word) : i < m := by
  obtain ⟨hi, rfl⟩ := Array.getElem?_eq_some_iff.mp hw
  by_contra hle
  exact (sorted_le hs hm hi (by omega)).not_gt hlt

/-- Bisection between two positions of a sorted table finds the words between them. -/
theorem binSearchAux_iff (hs : words.toList.Pairwise (· < ·)) (word : String)
    (lo : Fin (words.size + 1)) (hi : Fin words.size) (h : lo.1 ≤ hi.1) :
    words.binSearchAux (fun a b => decide (a < b)) Option.isSome word lo hi h = true ↔
      ∃ i, lo.1 ≤ i ∧ i ≤ hi.1 ∧ words[i]? = some word := by
  fun_induction Array.binSearchAux with
  | case1 lo hi h m a hm hnext _ ih =>
    refine ih.trans (exists_congr fun i => and_congr_left fun ⟨_, hi⟩ => ?_)
    have hlt := lt_of_getElem_lt hs (by omega : m < words.size) (of_decide_eq_true hm) hi
    dsimp only
    omega
  | case2 lo hi h m a hm hstop _ =>
    refine iff_of_false Bool.false_ne_true ?_
    rintro ⟨i, _, hle, hi⟩
    have hlt := lt_of_getElem_lt hs (by omega : m < words.size) (of_decide_eq_true hm) hi
    omega
  | case3 lo hi h m a _ hm hstop _ =>
    refine iff_of_false Bool.false_ne_true ?_
    rintro ⟨i, hle, _, hi⟩
    have hlt := lt_of_lt_getElem hs (by omega : m < words.size) (of_decide_eq_true hm) hi
    omega
  | case4 lo hi h m a _ hm hgo _ ih =>
    refine ih.trans (exists_congr fun i => and_congr_right fun _ => and_congr_left fun hi => ?_)
    have hlt := lt_of_lt_getElem hs (by omega : m < words.size) (of_decide_eq_true hm) hi
    dsimp only
    omega
  | case5 lo hi h m a hl hg _ =>
    have hm : m < words.size := by omega
    have ha : words[m] = word :=
      le_antisymm (not_lt.mp (by simpa using hg)) (not_lt.mp (by simpa using hl))
    exact iff_of_true rfl ⟨m, by omega, by omega, Array.getElem?_eq_some_iff.mpr ⟨hm, ha⟩⟩

theorem binSearchContains_iff {words : List String} (hs : words.Pairwise (· < ·)) (word : String) :
    words.toArray.binSearchContains word (fun a b => decide (a < b)) = true ↔ word ∈ words := by
  rw [Array.binSearchContains, ← List.mem_toArray, Array.mem_iff_getElem?]
  split
  · rw [dif_pos (Nat.zero_le _), binSearchAux_iff hs]
    refine exists_congr fun i => ⟨fun h => h.2.2, fun h => ⟨Nat.zero_le i, ?_, h⟩⟩
    have hi : i < words.toArray.size := (Array.getElem?_eq_some_iff.mp h).1
    dsimp only
    split <;> omega
  · next h =>
    refine iff_of_false Bool.false_ne_true ?_
    rintro ⟨i, hi⟩
    exact h ((Nat.zero_le i).trans_lt (Array.getElem?_eq_some_iff.mp hi).1)

end Bisection

theorem reservedWords_sorted : reservedWords.Pairwise (· < ·) := by
  rw [← List.isChain_iff_pairwise]
  decide +kernel

/-- The table of reserved words is in order, so that bisection answers the same. -/
theorem isReserved_eq_binSearchContains (text : String) : isReserved text =
    reservedWords.toArray.binSearchContains (lower text) (fun a b => decide (a < b)) := by
  rw [Bool.eq_iff_iff, binSearchContains_iff reservedWords_sorted (lower text), isReserved,
    List.contains_iff_mem]

theorem lower_reservedWords {word : String} (h : word ∈ reservedWords) : lower word = word := by
  have hall : (reservedWords.all fun word => lower word = word) = true := by decide +kernel
  simpa using List.all_eq_true.mp hall word h

theorem isReserved_eq_false_iff (text : String) :
    isReserved text = false ↔ ∀ word ∈ reservedWords, lower text ≠ lower word := by
  rw [← Bool.not_eq_true, isReserved, List.contains_iff_mem]
  constructor
  · rintro h word hw he
    rw [he, lower_reservedWords hw] at h
    exact h hw
  · intro h hm
    exact h _ hm (lower_reservedWords hm).symm

namespace Identifier

/-- A letter, followed by letters, digits and single underscores of which none is the last, and
no reserved word in any case. -/
structure BasicSpelling (text : String) : Prop where
  letter : ∃ c ∈ text.toList.head?, c.isAlpha = true
  word : ∀ c ∈ text.toList, c.isAlpha = true ∨ c.isDigit = true ∨ c = '_'
  single : ¬ ['_', '_'] <:+: text.toList
  closed : text.toList.getLast? ≠ some '_'
  free : ∀ word ∈ reservedWords, lower text ≠ lower word

inductive Item : List Char → Prop where
  | doubled : Item ['\\', '\\']
  | graphic {c : Char} (hg : isControl c = false) (hb : c ≠ '\\') : Item [c]

/-- At least one item between two backslashes. -/
def ExtendedSpelling (text : String) : Prop :=
  ∃ items : List (List Char), items ≠ [] ∧ (∀ item ∈ items, Item item) ∧
    text.toList = '\\' :: (items.flatten ++ ['\\'])

theorem Item.innerFault?_append {item : List Char} (h : Item item) (rest : List Char) :
    innerFault? (item ++ rest) = innerFault? rest := by
  cases h with
  | doubled => rfl
  | graphic hg hb => simp [innerFault?, hg, hb]

theorem Item.ne_nil {item : List Char} (h : Item item) : item ≠ [] := by
  cases h <;> simp

theorem innerFault?_eq_none_iff (inner : List Char) : innerFault? inner = none ↔
    ∃ items : List (List Char), (∀ item ∈ items, Item item) ∧ inner = items.flatten := by
  constructor
  · intro h
    fun_induction innerFault? inner with
    | case1 => exact ⟨[], by simp, rfl⟩
    | case2 rest ih =>
      obtain ⟨items, hi, rfl⟩ := ih h
      exact ⟨['\\', '\\'] :: items, List.forall_mem_cons.mpr ⟨.doubled, hi⟩, rfl⟩
    | case3 => cases h
    | case4 => cases h
    | case5 c rest _ hg hb ih =>
      obtain ⟨items, hi, rfl⟩ := ih h
      exact ⟨[c] :: items, List.forall_mem_cons.mpr ⟨.graphic (by simpa using hg) hb, hi⟩, rfl⟩
  · rintro ⟨items, hi, rfl⟩
    induction items with
    | nil => rfl
    | cons item items ih =>
      obtain ⟨hitem, hrest⟩ := List.forall_mem_cons.mp hi
      rw [List.flatten_cons, hitem.innerFault?_append]
      exact ih hrest

theorem isWordChar_iff (c : Char) :
    isWordChar c = true ↔ c.isAlpha = true ∨ c.isDigit = true ∨ c = '_' := by
  simp [isWordChar, Char.isAlphanum, or_assoc]

theorem basicFault?_eq_none_iff (text : String) :
    basicFault? text = none ↔ BasicSpelling text := by
  constructor
  · intro h
    unfold basicFault? at h
    split at h
    · cases h
    · next c rest ht =>
      split at h
      · cases h
      · next ha =>
        obtain ⟨hf, hr⟩ := Option.or_eq_none_iff.mp h
        obtain ⟨hw, hs, hl⟩ := (tailFault?_eq_none_iff c rest).mp hf
        rw [Bool.not_eq_true, Bool.not_eq_false'] at ha
        refine ⟨⟨c, by simp [ht], ha⟩, ?_, ht ▸ hs, ht ▸ hl, ?_⟩
        · rw [ht, List.forall_mem_cons]
          exact ⟨.inl ha, fun d hd => (isWordChar_iff d).mp (hw d hd)⟩
        · exact (isReserved_eq_false_iff text).mp (by simpa using hr)
  · intro h
    obtain ⟨c, hc, ha⟩ := h.letter
    obtain ⟨rest, ht⟩ := List.head?_eq_some_iff.mp hc
    obtain ⟨_, hw, hs, hl, hr⟩ := h
    rw [ht] at hw hs hl
    have hf : tailFault? c rest = none := (tailFault?_eq_none_iff c rest).mpr
      ⟨fun d hd => (isWordChar_iff d).mpr (hw d (List.mem_cons_of_mem _ hd)), hs, hl⟩
    simp [basicFault?, ht, ha, hf, (isReserved_eq_false_iff text).mpr hr]

theorem extendedSpelling_iff (text : String) : ExtendedSpelling text ↔
    ∃ inner, enclosed? text.toList = some inner ∧ inner ≠ [] ∧ innerFault? inner = none := by
  simp only [ExtendedSpelling, enclosed?_eq_some_iff, innerFault?_eq_none_iff]
  constructor
  · rintro ⟨items, hne, hi, ht⟩
    refine ⟨items.flatten, ht, ?_, items, hi, rfl⟩
    obtain ⟨item, hm⟩ := List.exists_mem_of_ne_nil items hne
    exact fun h => (hi item hm).ne_nil (List.flatten_eq_nil_iff.mp h item hm)
  · rintro ⟨_, ht, hne, items, hi, rfl⟩
    exact ⟨items, fun h => hne (by simp [h]), hi, ht⟩

theorem BasicSpelling.enclosed? {text : String} (h : BasicSpelling text) :
    enclosed? text.toList = none := by
  obtain ⟨c, hc, ha⟩ := h.letter
  refine Option.eq_none_iff_forall_ne_some.mpr fun inner he => ?_
  rw [enclosed?_eq_some_iff.mp he] at hc
  cases hc
  cases ha

theorem fault?_eq_none_iff (text : String) :
    fault? text = none ↔ BasicSpelling text ∨ ExtendedSpelling text := by
  rw [extendedSpelling_iff, fault?]
  split
  · next he =>
    refine iff_of_false (Option.some_ne_none _) ?_
    rintro (hb | ⟨inner, hi, hne, _⟩)
    · cases hb.enclosed?.symm.trans he
    · exact hne (Option.some.inj (hi.symm.trans he))
  · next inner hne he =>
    constructor
    · exact fun h => .inr ⟨inner, he, hne, h⟩
    · rintro (hb | ⟨other, ho, _, hf⟩)
      · cases hb.enclosed?.symm.trans he
      · exact Option.some.inj (he.symm.trans ho) ▸ hf
  · next he =>
    rw [basicFault?_eq_none_iff]
    refine ⟨.inl, ?_⟩
    rintro (hb | ⟨inner, hi, _⟩)
    · exact hb
    · cases he.symm.trans hi

/-- The part of a text between two byte offsets. There is none where an offset lies inside a
character or behind the end, or where the offsets are out of order. -/
def bytes? (text : String) (start stop : Nat) : Option String := do
  let first ← text.pos? ⟨start⟩
  let last ← text.pos? ⟨stop⟩
  let part ← text.slice? first last
  return part.copy

variable {text front part back : String}

theorem pos?_of_append (h : text = front ++ back) :
    ∃ pos, text.pos? ⟨front.utf8ByteSize⟩ = some pos ∧ pos.Splits front back := by
  have hv : String.Pos.Raw.IsValid text ⟨front.utf8ByteSize⟩ :=
    String.Pos.Raw.isValid_iff_exists_append.mpr ⟨front, back, h, rfl⟩
  have hs := String.Pos.Raw.isValidForSlice_eq_true_iff.mpr
    (String.Pos.Raw.isValidForSlice_toSlice_iff.mpr hv)
  refine ⟨text.pos _ hv, ?_, h, rfl⟩
  rw [String.pos?, String.Slice.pos?, dif_pos hs]
  rfl

theorem bytes?_of_append (h : text = front ++ part ++ back) :
    bytes? text front.utf8ByteSize (front ++ part).utf8ByteSize = some part := by
  obtain ⟨first, hf, hfirst⟩ := pos?_of_append (h.trans String.append_assoc)
  obtain ⟨last, hl, hlast⟩ := pos?_of_append h
  obtain ⟨hle, hc⟩ := String.copy_slice_eq_iff_splits.mpr ⟨front, back, hfirst, hlast⟩
  rw [bytes?, hf, hl]
  simp [String.slice?, hle, hc]

def delimited (text : String) : Bool :=
  2 ≤ text.utf8ByteSize && text.startsWith '\\' && text.endsWith '\\'

theorem enclosed?_eq_some_iff_append {inner : List Char} :
    enclosed? text.toList = some inner ↔ text = "\\" ++ String.ofList inner ++ "\\" := by
  rw [enclosed?_eq_some_iff, ← String.toList_inj]
  simp

theorem isSome_enclosed? (text : String) : (enclosed? text.toList).isSome = delimited text := by
  rw [Bool.eq_iff_iff, Option.isSome_iff_exists, delimited, String.startsWith_char_eq_head?,
    String.endsWith_char_eq_getLast?]
  simp only [Bool.and_eq_true, decide_eq_true_eq, beq_iff_eq]
  constructor
  · rintro ⟨inner, he⟩
    have ht := enclosed?_eq_some_iff_append.mp he
    refine ⟨⟨?_, ?_⟩, ?_⟩
    · have h1 : "\\".utf8ByteSize = 1 := by decide
      rw [ht, String.utf8ByteSize_append, String.utf8ByteSize_append, h1]
      omega
    · simp [ht]
    · rw [enclosed?_eq_some_iff.mp he, ← List.cons_append, List.getLast?_concat]
  · rintro ⟨⟨hlen, hh⟩, hl⟩
    obtain ⟨rest, ht⟩ := List.head?_eq_some_iff.mp hh
    cases rest with
    | nil =>
      have h1 : text = "\\" := String.toList_injective ht
      rw [h1] at hlen
      exact absurd hlen (by decide)
    | cons c rest =>
      rw [ht, List.getLast?_cons_cons] at hl
      obtain ⟨inner, hi⟩ := List.getLast?_eq_some_iff.mp hl
      exact ⟨inner, enclosed?_eq_some_iff.mpr (ht.trans (hi ▸ rfl))⟩

/-- What stands between the backslashes can be cut out by bytes. -/
theorem ofList_enclosed? (text : String) : (enclosed? text.toList).map String.ofList =
    if delimited text then bytes? text 1 (text.utf8ByteSize - 1) else none := by
  rw [← isSome_enclosed?]
  cases he : enclosed? text.toList with
  | none => rfl
  | some inner =>
    have ht := enclosed?_eq_some_iff_append.mp he
    have h1 : "\\".utf8ByteSize = 1 := by decide
    have hstop : text.utf8ByteSize - 1 = ("\\" ++ String.ofList inner).utf8ByteSize := by
      rw [ht, String.utf8ByteSize_append, h1, Nat.add_sub_cancel]
    have hb := bytes?_of_append ht
    rw [← hstop, h1] at hb
    exact hb.symm

/-- Exactly the texts of the grammar are identifiers. To look at an extended one, its inner text
can always be cut out by bytes, and reserved words can be looked up by bisection. -/
theorem ofString_exact (text : String) :
    ((∃ ident, ofString text = .ok ident ∧ ident.text = text) ↔
      BasicSpelling text ∨ ExtendedSpelling text) ∧
    (enclosed? text.toList).isSome = delimited text ∧
    (enclosed? text.toList).map String.ofList =
      (if delimited text then bytes? text 1 (text.utf8ByteSize - 1) else none) ∧
    isReserved text =
      reservedWords.toArray.binSearchContains (lower text) (fun a b => decide (a < b)) := by
  refine ⟨?_, isSome_enclosed? text, ofList_enclosed? text, isReserved_eq_binSearchContains text⟩
  rw [← fault?_eq_none_iff]
  constructor
  · rintro ⟨ident, -, rfl⟩
    exact ident.valid
  · exact fun h => ⟨⟨text, h⟩, ofString_eq_ok_iff.mpr rfl, rfl⟩

theorem isSome_enclosed?_normalized (ident : Identifier) :
    (enclosed? ident.normalized.toList).isSome = ident.isExtended := by
  rw [normalized]
  split
  · rfl
  · next he =>
    rw [Bool.not_eq_true] at he
    have hn : enclosed? ident.text.toList = none := by simpa [isExtended] using he
    rw [he, lower, String.toList_ofList, enclosed?_map_toLower hn]
    rfl

theorem isExtended_eq_false_iff (ident : Identifier) :
    ident.isExtended = false ↔ BasicSpelling ident.text := by
  constructor
  · intro h
    rcases (fault?_eq_none_iff ident.text).mp ident.valid with hb | hx
    · exact hb
    · obtain ⟨inner, he, _⟩ := (extendedSpelling_iff ident.text).mp hx
      simp [isExtended, he] at h
  · intro h
    rw [isExtended, h.enclosed?]
    rfl

theorem normalized_of_isExtended {ident : Identifier} (h : ident.isExtended = true) :
    ident.normalized = ident.text :=
  if_pos h

theorem normalized_of_basic {ident : Identifier} (h : ident.isExtended = false) :
    ident.normalized = lower ident.text :=
  if_neg (by simp [h])

variable {a b ident : Identifier}

theorem isExtended_eq_of_normalized_eq (h : a.normalized = b.normalized) :
    a.isExtended = b.isExtended := by
  rw [← isSome_enclosed?_normalized, h, isSome_enclosed?_normalized]

theorem normalized_eq_iff : a.normalized = b.normalized ↔ a.text = b.text ∨
    BasicSpelling a.text ∧ BasicSpelling b.text ∧ lower a.text = lower b.text := by
  rw [← isExtended_eq_false_iff, ← isExtended_eq_false_iff]
  constructor
  · intro h
    have hx := isExtended_eq_of_normalized_eq h
    cases ha : a.isExtended with
    | true =>
      rw [normalized_of_isExtended ha, normalized_of_isExtended (hx ▸ ha)] at h
      exact .inl h
    | false =>
      have hb : b.isExtended = false := hx ▸ ha
      rw [normalized_of_basic ha, normalized_of_basic hb] at h
      exact .inr ⟨rfl, hb, h⟩
  · rintro (ht | ⟨ha, hb, hl⟩)
    · obtain rfl : a = b := Except.ok.inj
        ((ofString_eq_ok_iff.mpr ht).symm.trans (ofString_eq_ok_iff.mpr rfl))
      rfl
    · rw [normalized_of_basic ha, normalized_of_basic hb, hl]

theorem enclosed?_of_normalized_eq_lower {text : String} (hb : ident.isExtended = false)
    (h : ident.normalized = lower text) : enclosed? text.toList = none := by
  refine Option.eq_none_iff_forall_ne_some.mpr fun inner he => ?_
  have hl : enclosed? ident.normalized.toList = some (inner.map Char.toLower) := by
    rw [h, enclosed?_eq_some_iff, lower, String.toList_ofList, enclosed?_eq_some_iff.mp he]
    simp
  have hx := isSome_enclosed?_normalized ident
  rw [hl, hb] at hx
  cases hx

theorem isNamed_iff {text : String} : ident.isNamed text = true ↔
    ∃ named : Identifier, named.text = text ∧ ident.normalized = named.normalized := by
  rw [isNamed]
  cases hx : ident.isExtended with
  | true =>
    rw [if_pos rfl, decide_eq_true_eq]
    refine ⟨fun h => ⟨ident, h, rfl⟩, ?_⟩
    rintro ⟨named, rfl, h⟩
    have hn := (isExtended_eq_of_normalized_eq h).symm.trans hx
    rwa [normalized_of_isExtended hx, normalized_of_isExtended hn] at h
  | false =>
    rw [if_neg Bool.false_ne_true, decide_eq_true_eq]
    constructor
    · intro h
      have he := enclosed?_of_normalized_eq_lower hx h
      have hv : fault? text = none := by
        rw [← fault?_lower he, ← h]
        exact ident.fault?_normalized
      have hn : (⟨text, hv⟩ : Identifier).isExtended = false := by
        rw [isExtended, he]
        rfl
      exact ⟨⟨text, hv⟩, rfl, h.trans (normalized_of_basic hn).symm⟩
    · rintro ⟨named, rfl, h⟩
      rw [h, normalized_of_basic ((isExtended_eq_of_normalized_eq h).symm.trans hx)]

theorem normalized_of_text_eq_normalized (h : a.text = b.normalized) :
    a.normalized = b.normalized := by
  have hx : a.isExtended = b.isExtended := by rw [isExtended, h, isSome_enclosed?_normalized]
  cases hb : b.isExtended with
  | true => rw [normalized_of_isExtended (hx.trans hb), h]
  | false => rw [normalized_of_basic (hx.trans hb), h, normalized_of_basic hb, lower_lower]

/-- A text names an identifier exactly if it is accepted as an equal one, the normalized spelling
is accepted as an equal one and stays as it is, and two texts are accepted as equal identifiers
exactly if they are the same, or both basic and the same but for case. -/
theorem comparison_coherent (ident : Identifier) (text other : String) :
    (ident.isNamed text = true ↔ ∃ named, ofString text = .ok named ∧ (ident == named) = true) ∧
    (∃ named, ofString ident.normalized = .ok named ∧ (named == ident) = true ∧
      named.normalized = ident.normalized) ∧
    (∀ a b, ofString text = .ok a → ofString other = .ok b →
      ((a == b) = true ↔ text = other ∨
        BasicSpelling text ∧ BasicSpelling other ∧ lower text = lower other)) := by
  simp only [ofString_eq_ok_iff, beq_iff_normalized]
  refine ⟨isNamed_iff, ?_, ?_⟩
  · let named : Identifier := ⟨ident.normalized, ident.fault?_normalized⟩
    have hn : named.normalized = ident.normalized := normalized_of_text_eq_normalized rfl
    exact ⟨named, rfl, hn, hn⟩
  · rintro a b rfl rfl
    exact normalized_eq_iff

theorem clock_spellings : ∃ a b, ofString "Clk_In" = .ok a ∧ ofString "CLK_IN" = .ok b ∧
    (a == b) = true ∧ BasicSpelling "Clk_In" ∧ BasicSpelling "CLK_IN" ∧
      lower "Clk_In" = lower "CLK_IN" := by
  let mixed : Identifier := ⟨"Clk_In", by decide +kernel⟩
  let upper : Identifier := ⟨"CLK_IN", by decide +kernel⟩
  have hm : ofString "Clk_In" = .ok mixed := ofString_eq_ok_iff.mpr rfl
  have hu : ofString "CLK_IN" = .ok upper := ofString_eq_ok_iff.mpr rfl
  have heq : (mixed == upper) = true := by decide +kernel
  have h := ((comparison_coherent mixed "Clk_In" "CLK_IN").2.2 mixed upper hm hu).mp heq
  exact ⟨mixed, upper, hm, hu, heq, h.resolve_left (by decide)⟩

end Identifier

end Vhdl
