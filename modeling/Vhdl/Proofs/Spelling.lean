import Mathlib
import Vhdl.Store

/-! # Spelling of identifiers and keys

A normalized identifier is a word, or it stands between backslashes with every inner backslash
doubled. Where it ends can therefore be seen from the text alone, and the textual keys of libraries
and units can be taken apart again.
-/

namespace Vhdl

namespace Identifier

def isWordChar (c : Char) : Bool :=
  c.isAlphanum || c = '_'

theorem enclosed?_eq_some_iff {text inner : List Char} :
    enclosed? text = some inner ↔ text = '\\' :: (inner ++ ['\\']) := by
  constructor
  · intro h
    unfold enclosed? at h
    split at h
    · next rest =>
      split at h
      · next hl =>
        cases h
        obtain ⟨ys, rfl⟩ := List.getLast?_eq_some_iff.mp hl
        simp
      · cases h
    · cases h
  · rintro rfl
    simp [enclosed?]

theorem tailFault?_eq_none_iff (previous : Char) (rest : List Char) :
    tailFault? previous rest = none ↔ (∀ c ∈ rest, isWordChar c = true) ∧
      ¬ ['_', '_'] <:+: previous :: rest ∧ (previous :: rest).getLast? ≠ some '_' := by
  induction rest generalizing previous with
  | nil =>
    have hi : ¬ ['_', '_'] <:+: [previous] := fun h => absurd h.length_le (by simp)
    simp [tailFault?, hi]
  | cons c rest ih =>
    have hi : ['_', '_'] <:+: previous :: c :: rest ↔
        (c = '_' ∧ previous = '_') ∨ ['_', '_'] <:+: c :: rest := by
      rw [List.infix_cons_iff, List.cons_prefix_cons, List.cons_prefix_cons]
      simp [eq_comm, and_comm]
    rw [hi, List.getLast?_cons_cons, List.forall_mem_cons, not_or, tailFault?]
    split
    · next hc =>
      refine iff_of_false (Option.some_ne_none _) fun h => ?_
      rw [← isWordChar, h.1.1] at hc
      cases hc
    · next hc =>
      rw [← isWordChar, Bool.not_eq_true, Bool.not_eq_false'] at hc
      split
      · next hu =>
        rw [Bool.and_eq_true, decide_eq_true_eq, decide_eq_true_eq] at hu
        exact iff_of_false (Option.some_ne_none _) fun h => h.2.1.1 hu
      · next hu =>
        rw [Bool.and_eq_true, decide_eq_true_eq, decide_eq_true_eq] at hu
        rw [ih c]
        tauto

theorem toLower_eq_iff {c d : Char} (hd : d.isAlpha = false) : c.toLower = d ↔ c = d := by
  by_cases hc : c.isUpper
  · have ha : c.isAlpha = true := by simp [Char.isAlpha, hc]
    constructor
    · rintro rfl
      simp [ha] at hd
    · rintro rfl
      cases ha.symm.trans hd
  · rw [Char.toLower_eq_of_not_isUpper hc]

theorem isAlphanum_toLower (c : Char) : c.toLower.isAlphanum = c.isAlphanum := by
  by_cases hc : c.isUpper
  · simp [Char.isAlphanum, Char.isAlpha, hc]
  · rw [Char.toLower_eq_of_not_isUpper hc]

theorem toLower_eq_underscore_iff (c : Char) : c.toLower = '_' ↔ c = '_' :=
  toLower_eq_iff (by decide)

theorem isWordChar_toLower (c : Char) : isWordChar c.toLower = isWordChar c := by
  rw [isWordChar, isAlphanum_toLower, isWordChar]
  simp only [toLower_eq_underscore_iff]

theorem not_isWordChar_backslash : isWordChar '\\' = false := by decide

theorem text_cases (ident : Identifier) :
    (ident.isExtended = true ∧ ∃ inner, ident.text.toList = '\\' :: (inner ++ ['\\']) ∧
      innerFault? inner = none) ∨
    (ident.isExtended = false ∧ (∃ c rest, ident.text.toList = c :: rest ∧ c.isAlpha = true) ∧
      ident.text.toList.all isWordChar = true ∧ isReserved ident.text = false) := by
  obtain ⟨text, valid⟩ := ident
  unfold fault? at valid
  split at valid
  · cases valid
  · next inner _ he =>
    exact .inl ⟨by simp [isExtended, he], inner, enclosed?_eq_some_iff.mp he, valid⟩
  · next he =>
    refine .inr ⟨by simp [isExtended, he], ?_⟩
    unfold basicFault? at valid
    split at valid
    · cases valid
    · next c rest hc =>
      split at valid
      · cases valid
      · next ha =>
        obtain ⟨ht, hr⟩ := Option.or_eq_none_iff.mp valid
        simp only [Bool.not_eq_true, Bool.not_eq_false'] at ha
        refine ⟨⟨c, rest, hc, ha⟩, ?_, by simpa using hr⟩
        simpa [hc, isWordChar, Char.isAlphanum, ha] using ((tailFault?_eq_none_iff c rest).mp ht).1

theorem normalized_cases (ident : Identifier) :
    (∃ inner, ident.normalized.toList = '\\' :: (inner ++ ['\\']) ∧ innerFault? inner = none) ∨
      ident.normalized.toList.all isWordChar = true ∧ ident.normalized ∉ reservedWords := by
  rcases ident.text_cases with ⟨he, inner, ht, hi⟩ | ⟨he, _, hw, hr⟩
  · exact .inl ⟨inner, by rw [normalized, if_pos he, ht], hi⟩
  · rw [normalized, if_neg (by simp [he])]
    refine .inr ⟨?_, fun hm => by simp [isReserved, hm] at hr⟩
    rw [lower, String.toList_ofList, List.all_map]
    exact List.all_eq_true.mpr fun c hc =>
      (isWordChar_toLower c).trans (List.all_eq_true.mp hw c hc)

theorem lower_lower (text : String) : lower (lower text) = lower text := by
  simp [lower, Function.comp_def]

theorem tailFault?_map_toLower (previous : Char) (rest : List Char) :
    tailFault? previous.toLower (rest.map Char.toLower) = tailFault? previous rest := by
  induction rest generalizing previous with
  | nil => simp only [List.map_nil, tailFault?, toLower_eq_underscore_iff]
  | cons c rest ih =>
    simp only [List.map_cons, tailFault?, ih, isAlphanum_toLower, toLower_eq_underscore_iff]

theorem enclosed?_map_toLower {text : List Char} (h : enclosed? text = none) :
    enclosed? (text.map Char.toLower) = none := by
  have hback : ∀ {c : Char}, c.toLower = '\\' → c = '\\' := (toLower_eq_iff (by decide)).mp
  rw [Option.eq_none_iff_forall_ne_some] at h ⊢
  intro inner he
  obtain ⟨first, rest, rfl, hf, hr⟩ := List.map_eq_cons_iff.mp (enclosed?_eq_some_iff.mp he)
  obtain ⟨body, tail, rfl, _, ht⟩ := List.map_eq_append_iff.mp hr
  obtain ⟨last, rfl, hl⟩ := List.map_eq_singleton_iff.mp ht
  exact h body (enclosed?_eq_some_iff.mpr (by rw [hback hf, hback hl]))

theorem fault?_lower {text : String} (h : enclosed? text.toList = none) :
    fault? (lower text) = fault? text := by
  have hl : (lower text).toList = text.toList.map Char.toLower := String.toList_ofList
  have hr : isReserved (lower text) = isReserved text := by rw [isReserved, lower_lower, isReserved]
  rw [fault?, fault?, h, hl, enclosed?_map_toLower h]
  dsimp only
  rw [basicFault?, basicFault?, hl, hr]
  cases text.toList with
  | nil => rfl
  | cons c rest =>
    simp only [List.map_cons, Char.isAlpha_toLower_eq_isAlpha, tailFault?_map_toLower]

theorem fault?_normalized (ident : Identifier) : fault? ident.normalized = none := by
  rw [normalized]
  split
  · exact ident.valid
  · next he =>
    rw [fault?_lower (by simpa [isExtended] using he)]
    exact ident.valid

theorem beq_iff_normalized {a b : Identifier} : (a == b) = true ↔ a.normalized = b.normalized :=
  beq_iff_eq (a := a.normalized)

theorem check_eq_ok_iff {name : String} {ident : Identifier} :
    check name = .ok ident ↔ ident.text = name := by
  obtain ⟨text, valid⟩ := ident
  unfold check
  constructor
  · intro h
    split at h
    · cases h
    · cases h
      rfl
  · rintro rfl
    split
    · next hf => cases valid.symm.trans hf
    · rfl

theorem ofString_eq_ok_iff {name : String} {ident : Identifier} :
    ofString name = .ok ident ↔ ident.text = name := by
  rw [← check_eq_ok_iff, ofString]
  cases check name with
  | error fault => simp [Except.mapError]
  | ok ident => simp [Except.mapError]

theorem ofString_eq_error_iff {name : String} {diagnostic : Diagnostic} :
    ofString name = .error diagnostic ↔
      ∃ fault, fault? name = some fault ∧ diagnostic = .invalidIdentifier name fault := by
  unfold ofString check
  split
  · next fault h => simp [Except.mapError, h, eq_comm]
  · next h => simp [Except.mapError, h]

/-- Cut a text behind the backslash that closes an extended identifier. -/
def cutInner : List Char → List Char × List Char
  | [] => ([], [])
  | '\\' :: '\\' :: rest => ('\\' :: '\\' :: (cutInner rest).1, (cutInner rest).2)
  | '\\' :: rest => (['\\'], rest)
  | c :: rest => (c :: (cutInner rest).1, (cutInner rest).2)

def cut : List Char → List Char × List Char
  | '\\' :: rest => ('\\' :: (cutInner rest).1, (cutInner rest).2)
  | text => (text.takeWhile isWordChar, text.dropWhile isWordChar)

theorem cut_of_head {text : List Char} (h : ∀ c ∈ text.head?, c ≠ '\\') :
    cut text = (text.takeWhile isWordChar, text.dropWhile isWordChar) := by
  unfold cut
  split
  · exact absurd rfl (h _ rfl)
  · rfl

/-- A text that cannot continue an identifier. -/
def Stops (rest : List Char) : Prop :=
  ∀ c ∈ rest.head?, isWordChar c = false ∧ c ≠ '\\'

theorem cutInner_append {inner rest : List Char} (h : innerFault? inner = none) (hr : Stops rest) :
    cutInner (inner ++ '\\' :: rest) = (inner ++ ['\\'], rest) := by
  fun_induction innerFault? inner with
  | case1 =>
    cases rest with
    | nil => rfl
    | cons c rest =>
      have hc : c ≠ '\\' := (hr c rfl).2
      simp [cutInner, hc]
  | case2 rest' ih => simp [cutInner, ih h]
  | case3 => cases h
  | case4 => cases h
  | case5 c rest' _ _ hc ih =>
    simp [cutInner, hc, ih h]

theorem cut_word {word rest : List Char} (hw : word.all isWordChar = true) (hr : Stops rest) :
    cut (word ++ rest) = (word, rest) := by
  have hd : rest.takeWhile isWordChar = [] ∧ rest.dropWhile isWordChar = rest := by
    cases rest with
    | nil => exact ⟨rfl, rfl⟩
    | cons c rest => simp [(hr c rfl).1]
  have hh : ∀ c ∈ (word ++ rest).head?, c ≠ '\\' := by
    intro c hc
    cases word with
    | nil => exact (hr c hc).2
    | cons d tail =>
      rintro rfl
      cases (by simpa using hc : d = '\\')
      simp [not_isWordChar_backslash] at hw
  have hall := List.all_eq_true.mp hw
  rw [cut_of_head hh, List.takeWhile_append_of_pos hall, List.dropWhile_append_of_pos hall, hd.1,
    hd.2, List.append_nil]

theorem cut_extended {inner rest : List Char} (hi : innerFault? inner = none) (hr : Stops rest) :
    cut ('\\' :: (inner ++ ['\\']) ++ rest) = ('\\' :: (inner ++ ['\\']), rest) := by
  rw [List.cons_append, List.append_assoc, cut, List.singleton_append, cutInner_append hi hr]

theorem cut_normalized (ident : Identifier) {rest : List Char} (hr : Stops rest) :
    cut (ident.normalized.toList ++ rest) = (ident.normalized.toList, rest) := by
  rcases ident.normalized_cases with ⟨inner, ht, hi⟩ | ⟨hw, _⟩
  · rw [ht, cut_extended hi hr]
  · exact cut_word hw hr

theorem cut_text (ident : Identifier) {rest : List Char} (hr : Stops rest) :
    cut (ident.text.toList ++ rest) = (ident.text.toList, rest) := by
  rcases ident.text_cases with ⟨_, inner, ht, hi⟩ | ⟨_, _, hw, _⟩
  · rw [ht, cut_extended hi hr]
  · exact cut_word hw hr

/-- Normalized identifiers in front of texts that do not continue them can be read off. -/
theorem normalized_append_inj {a b : Identifier} {r s : List Char} (hr : Stops r) (hs : Stops s)
    (h : a.normalized.toList ++ r = b.normalized.toList ++ s) :
    a.normalized = b.normalized ∧ r = s := by
  have hc := congrArg cut h
  rw [cut_normalized a hr, cut_normalized b hs, Prod.mk.injEq] at hc
  exact ⟨String.toList_injective hc.1, hc.2⟩

theorem normalized_ne_body (ident : Identifier) : ident.normalized ≠ "body" := by
  intro h
  rcases ident.normalized_cases with ⟨inner, ht, _⟩ | ⟨_, hn⟩
  · rw [h] at ht
    simp at ht
  · rw [h] at hn
    exact hn (by decide)

end Identifier

open Identifier

/-- The names in a key are those of identifiers. -/
inductive UnitKey.Named : UnitKey → Prop where
  | primary (name : Identifier) : Named (.primary name.normalized)
  | architecture (entity name : Identifier) : Named (.architecture entity.normalized name.normalized)
  | packageBody (package : Identifier) : Named (.packageBody package.normalized)

theorem DesignUnit.named_key (unit : DesignUnit) : unit.key.Named := by
  obtain ⟨ident, context, body, doc⟩ := unit
  cases body with
  | architecture entity => exact .architecture entity.item ident
  | packageBody => exact .packageBody ident
  | entity | configuration | package | context => exact .primary ident

namespace UnitKey

def owner : UnitKey → String
  | .primary name => name
  | .architecture entity _ => entity
  | .packageBody package => package

def suffix : UnitKey → List Char
  | .primary _ => []
  | .architecture _ name => '(' :: (name.toList ++ [')'])
  | .packageBody _ => '(' :: ("body".toList ++ [')'])

theorem toList_render (library : String) (key : UnitKey) :
    (key.render library).toList = library.toList ++ '.' :: (key.owner.toList ++ key.suffix) := by
  cases key <;> simp [render, owner, suffix]

theorem stops_suffix (key : UnitKey) : Stops key.suffix := by
  cases key <;> simp [Stops, suffix, isWordChar]

theorem stops_dot (rest : List Char) : Stops ('.' :: rest) := by
  simp [Stops, isWordChar]

theorem Named.exists_owner {key : UnitKey} (h : key.Named) :
    ∃ ident : Identifier, key.owner = ident.normalized := by
  cases h <;> exact ⟨_, rfl⟩

theorem Named.eq_of_suffix {a b : UnitKey} (ha : a.Named) (hb : b.Named) (ho : a.owner = b.owner)
    (hs : a.suffix = b.suffix) : a = b := by
  have paren : ∀ {x y : String}, '(' :: (x.toList ++ [')']) = '(' :: (y.toList ++ [')']) → x = y :=
    fun h => String.toList_injective (List.append_cancel_right (List.cons.inj h).2)
  cases ha with
  | primary name =>
    cases hb with
    | primary name' => exact congrArg UnitKey.primary ho
    | architecture | packageBody => cases hs
  | architecture entity name =>
    cases hb with
    | primary => cases hs
    | architecture entity' name' => exact congrArg₂ UnitKey.architecture ho (paren hs)
    | packageBody package' => exact absurd (paren hs) name.normalized_ne_body
  | packageBody package =>
    cases hb with
    | primary => cases hs
    | architecture entity' name' => exact absurd (paren hs).symm name'.normalized_ne_body
    | packageBody package' => exact congrArg UnitKey.packageBody ho

/-- The text of a key determines the library and the key. -/
theorem render_inj {a b : UnitKey} (ha : a.Named) (hb : b.Named) {l m : Identifier}
    (h : a.render l.normalized = b.render m.normalized) : l.normalized = m.normalized ∧ a = b := by
  have ht := congrArg String.toList h
  rw [toList_render, toList_render] at ht
  obtain ⟨hl, ht⟩ := normalized_append_inj (stops_dot _) (stops_dot _) ht
  obtain ⟨i, hi⟩ := ha.exists_owner
  obtain ⟨j, hj⟩ := hb.exists_owner
  rw [hi, hj, List.cons.injEq] at ht
  obtain ⟨ho, hs⟩ := normalized_append_inj a.stops_suffix b.stops_suffix ht.2
  exact ⟨hl, ha.eq_of_suffix hb (hi.trans (ho.trans hj.symm)) hs⟩

theorem render_ne (key : UnitKey) (l m : Identifier) : key.render l.normalized ≠ m.normalized := by
  intro h
  have ht := congrArg String.toList h
  rw [toList_render, ← List.append_nil m.normalized.toList] at ht
  have hn := (normalized_append_inj (stops_dot _) (by simp [Stops]) ht).2
  cases hn

end UnitKey

end Vhdl
