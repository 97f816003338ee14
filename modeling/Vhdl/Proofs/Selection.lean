import Vhdl.Proofs.Derivation

/-! # Selecting a top level by its key

A top level is selected by a text that is put into lower case as a whole. Lower case keeps the
backslashes, dots and parentheses of a key, so that a key is never taken for the name of an entity
or architecture. It does not keep the capital letters of extended identifiers: a key with such
letters selects the root whose key is the text in lower case, or nothing.
-/

namespace Vhdl

theorem eq_singleton_iff_mem {α : Type} {xs : List α} (hn : xs.Nodup)
    (hu : ∀ a ∈ xs, ∀ b ∈ xs, a = b) {x : α} : xs = [x] ↔ x ∈ xs := by
  constructor
  · rintro rfl
    exact List.mem_singleton_self x
  · intro hx
    refine List.perm_singleton.mp ((List.perm_ext_iff_of_nodup hn (List.nodup_singleton x)).mpr ?_)
    intro a
    rw [List.mem_singleton]
    exact ⟨fun ha => hu a ha x hx, fun he => he ▸ hx⟩

namespace Text

/-- What becomes of a character between those in front of it and those that follow. -/
def lowerBlock (before rest : List Char) (c : Char) : List Char :=
  if c = 'Σ' then [if startsCased before && !startsCased rest then 'ς' else 'σ']
  else if c = 'İ' then ['i', '\u0307']
  else [lowerChar c]

theorem lowerChars_cons (before rest : List Char) (c : Char) :
    lowerChars before (c :: rest) = lowerBlock before rest c ++ lowerChars (c :: before) rest :=
  rfl

def isLower (c : Char) : Bool :=
  c ≠ 'Σ' && c ≠ 'İ' && lowerChar c = c

/-- The run is that of the ASCII letters or lies above ASCII, and it leads to characters that come
after the capital letters of ASCII. -/
def CaseRun.isRegular (run : CaseRun) : Bool :=
  ((run.first = 65 && run.last = 90) || 128 ≤ run.first) && 97 ≤ run.first + run.offset &&
    (run.last + run.offset < 0xd800 ||
      (0xdfff < run.first + run.offset && run.last + run.offset < 0x110000))

theorem isRegular_caseRuns : ∀ run ∈ caseRuns, run.isRegular = true := by
  decide +kernel

/-- A character with another lower case is a capital letter of ASCII or lies above ASCII. -/
theorem lowerChar_cases (c : Char) : lowerChar c = c ∨
    97 ≤ (lowerChar c).toNat ∧ (c.isUpper = true ∨ 128 ≤ c.toNat) := by
  unfold lowerChar
  split
  · next run hr =>
    have hreg := isRegular_caseRuns run (List.mem_of_find?_eq_some hr)
    have hc := List.find?_some hr
    simp only [CaseRun.isRegular, CaseRun.contains, Bool.and_eq_true, Bool.or_eq_true,
      decide_eq_true_eq] at hreg hc
    have hv : (c.toNat + run.offset).toNat.isValidChar := by
      unfold Nat.isValidChar
      omega
    have hu : c.isUpper = true ↔ 65 ≤ c.toNat ∧ c.toNat ≤ 90 := by
      simp only [Char.isUpper, decide_eq_true_eq, ge_iff_le]
      exact Iff.rfl
    refine .inr ⟨?_, ?_⟩
    · rw [Char.toNat_ofNat, if_pos hv]
      omega
    · rw [hu]
      omega
  · exact .inl rfl

theorem isLower_of_ascii {c : Char} (hc : c.toNat < 128) (hu : c.isUpper = false) :
    isLower c = true := by
  have hl : lowerChar c = c := by
    rcases lowerChar_cases c with h | ⟨_, h | h⟩
    · exact h
    · cases hu.symm.trans h
    · omega
  have hne : ∀ d : Char, 128 ≤ d.toNat → c ≠ d := by
    rintro d hd rfl
    omega
  simp [isLower, hl, hne 'Σ' (by decide), hne 'İ' (by decide)]

variable {before rest : List Char} {c d : Char}

theorem lowerBlock_of_isLower (h : isLower c = true) : lowerBlock before rest c = [c] := by
  simp only [isLower, Bool.and_eq_true, decide_eq_true_eq] at h
  simp [lowerBlock, h]

theorem isLower_of_head (h : (lowerBlock before rest c).head? = some c) : isLower c = true := by
  unfold lowerBlock at h
  split at h
  · next hc =>
    subst hc
    split at h <;> simp at h
  · split at h
    · next hc =>
      subst hc
      simp at h
    · next hs hi => simpa [isLower, hs, hi] using h

theorem lowerBlock_ne_nil : lowerBlock before rest c ≠ [] := by
  unfold lowerBlock
  split
  · simp
  · split <;> simp

theorem mem_lowerBlock (h : d ∈ lowerBlock before rest c) : d = c ∨ 97 ≤ d.toNat := by
  unfold lowerBlock at h
  split at h
  · obtain rfl := List.mem_singleton.mp h
    split <;> exact .inr (by decide)
  · split at h
    · simp only [List.mem_cons, List.not_mem_nil, or_false] at h
      rcases h with rfl | rfl <;> exact .inr (by decide)
    · obtain rfl := List.mem_singleton.mp h
      exact (lowerChar_cases c).imp_right And.left

theorem lowerChars_eq_self_iff {text : List Char} :
    lowerChars before text = text ↔ ∀ c ∈ text, isLower c = true := by
  induction text generalizing before with
  | nil => simp [lowerChars]
  | cons c rest ih =>
    rw [lowerChars_cons, List.forall_mem_cons]
    constructor
    · intro h
      have hhead : (lowerBlock before rest c).head? = some c := by
        rw [← List.head?_append_of_ne_nil _ lowerBlock_ne_nil, h, List.head?_cons]
      have hc := isLower_of_head hhead
      rw [lowerBlock_of_isLower hc, List.singleton_append, List.cons.injEq] at h
      exact ⟨hc, ih.mp h.2⟩
    · rintro ⟨hc, hr⟩
      rw [lowerBlock_of_isLower hc, ih.mpr hr, List.singleton_append]

theorem lowercase_eq_self_iff {text : String} :
    lowercase text = text ↔ ∀ c ∈ text.toList, isLower c = true := by
  rw [lowercase, ← String.toList_inj, String.toList_ofList]
  exact lowerChars_eq_self_iff

end Text

namespace Identifier

def isSeparator (c : Char) : Bool :=
  c = '\\' || c = '.' || c = '('

theorem isSeparator_cases {c : Char} (h : isSeparator c = true) : c = '\\' ∨ c = '.' ∨ c = '(' := by
  simpa [isSeparator, or_assoc] using h

theorem filter_lowerBlock (before rest : List Char) (c : Char) :
    (Text.lowerBlock before rest c).filter isSeparator = [c].filter isSeparator := by
  by_cases hs : isSeparator c = true
  · have hl : Text.isLower c = true := by
      rcases isSeparator_cases hs with rfl | rfl | rfl <;> decide +kernel
    rw [Text.lowerBlock_of_isLower hl]
  · rw [List.filter_cons_of_neg hs, List.filter_nil, List.filter_eq_nil_iff]
    intro d hd hsep
    rcases Text.mem_lowerBlock hd with rfl | hle
    · exact hs hsep
    · rcases isSeparator_cases hsep with rfl | rfl | rfl <;> revert hle <;> decide

theorem filter_lowerChars (before text : List Char) :
    (Text.lowerChars before text).filter isSeparator = text.filter isSeparator := by
  induction text generalizing before with
  | nil => rfl
  | cons c rest ih =>
    rw [Text.lowerChars_cons, List.filter_append, filter_lowerBlock, ih, ← List.filter_append,
      List.singleton_append]

theorem innerFault?_filter {inner : List Char} (h : innerFault? inner = none) :
    innerFault? (inner.filter isSeparator) = none := by
  fun_induction innerFault? inner with
  | case1 => rfl
  | case2 rest ih => exact ih h
  | case3 => cases h
  | case4 => cases h
  | case5 c rest hpair hcontrol hback ih =>
    rw [List.filter_cons]
    split
    · rw [innerFault?, if_neg hcontrol, if_neg hback]
      · exact ih h
      · rintro _ rfl
        exact absurd rfl hback
    · exact ih h

theorem isSeparator_of_isWordChar {c : Char} (h : isWordChar c = true) : isSeparator c = false := by
  by_contra hs
  rcases isSeparator_cases (Bool.eq_true_of_not_eq_false hs) with rfl | rfl | rfl <;>
    revert h <;> decide

theorem cut_of_stops {rest : List Char} (h : Stops rest) : cut rest = ([], rest) := by
  rw [cut_of_head fun c hc => (h c hc).2]
  cases rest with
  | nil => rfl
  | cons c rest => simp [(h c rfl).1]

/-- Where an identifier ends can be seen from the separators alone. -/
theorem cut_filter (ident : Identifier) {rest : List Char} (h : Stops (rest.filter isSeparator)) :
    cut ((ident.normalized.toList ++ rest).filter isSeparator) =
      (ident.normalized.toList.filter isSeparator, rest.filter isSeparator) := by
  rw [List.filter_append]
  rcases ident.normalized_cases with ⟨inner, ht, hi⟩ | ⟨hw, _⟩
  · have hf : ident.normalized.toList.filter isSeparator =
        '\\' :: (inner.filter isSeparator ++ ['\\']) := by
      rw [ht, List.filter_cons_of_pos (by decide), List.filter_append]
      rfl
    rw [hf, List.cons_append, List.append_assoc, cut, List.singleton_append,
      cutInner_append (innerFault?_filter hi) h]
  · have hf : ident.normalized.toList.filter isSeparator = [] := by
      rw [List.filter_eq_nil_iff]
      intro c hc
      rw [isSeparator_of_isWordChar (List.all_eq_true.mp hw c hc)]
      decide
    rw [hf, List.nil_append, cut_of_stops h]

theorem toNat_lt_of_isWordChar {c : Char} (h : isWordChar c = true) : c.toNat < 128 := by
  rw [isWordChar, Bool.or_eq_true, decide_eq_true_eq] at h
  rcases h with h | rfl
  · simp only [Char.isAlphanum, Char.isAlpha, Char.isUpper, Char.isLower, Char.isDigit,
      Bool.or_eq_true, Bool.and_eq_true, decide_eq_true_eq, ge_iff_le,
      UInt32.le_iff_toNat_le] at h
    change ((65 ≤ c.toNat ∧ c.toNat ≤ 90) ∨ 97 ≤ c.toNat ∧ c.toNat ≤ 122) ∨
      48 ≤ c.toNat ∧ c.toNat ≤ 57 at h
    omega
  · decide

theorem isLower_normalized {ident : Identifier} (h : ident.isExtended = false) :
    ∀ c ∈ ident.normalized.toList, Text.isLower c = true := by
  intro c hc
  have hn : ident.normalized = lower ident.text := by
    rw [normalized, h]
    rfl
  have hword : isWordChar c = true := by
    rcases ident.normalized_cases with ⟨inner, ht, _⟩ | ⟨hw, _⟩
    · have he : enclosed? ident.normalized.toList = some inner := enclosed?_eq_some_iff.mpr ht
      have hx : enclosed? ident.text.toList = none := by simpa [isExtended] using h
      have hl : ident.normalized.toList = ident.text.toList.map Char.toLower := by
        rw [hn, lower, String.toList_ofList]
      rw [hl, enclosed?_map_toLower hx] at he
      cases he
    · exact List.all_eq_true.mp hw c hc
  have hupper : c.isUpper = false := by
    rw [hn, lower, String.toList_ofList] at hc
    obtain ⟨d, _, rfl⟩ := List.mem_map.mp hc
    exact Char.isUpper_toLower_eq_false d
  exact Text.isLower_of_ascii (toNat_lt_of_isWordChar hword) hupper

end Identifier

open Identifier

/-- A key in lower case is no identifier, not even with something in parentheses. -/
theorem UnitKey.lowerChars_render_ne (key : UnitKey) (library name : Identifier) {rest : List Char}
    (h : ∀ c ∈ rest.head?, c = '(') :
    Text.lowerChars [] (key.render library.normalized).toList ≠ name.normalized.toList ++ rest := by
  intro he
  have hrest : rest.filter isSeparator = [] ∨
      ∃ tail, rest.filter isSeparator = '(' :: tail := by
    cases rest with
    | nil => exact .inl rfl
    | cons c tail =>
      obtain rfl := h c rfl
      exact .inr ⟨_, List.filter_cons_of_pos (by decide)⟩
  have hstops : Stops (rest.filter isSeparator) := by
    rcases hrest with hr | ⟨tail, hr⟩ <;> rw [hr] <;> simp [Stops, isWordChar]
  have hdot (tail : List Char) :
      ('.' :: tail).filter isSeparator = '.' :: tail.filter isSeparator :=
    List.filter_cons_of_pos (by decide)
  have hc := congrArg (fun text => cut (text.filter isSeparator)) he
  rw [filter_lowerChars, toList_render, cut_filter library (hdot _ ▸ stops_dot _),
    cut_filter name hstops, hdot, Prod.mk.injEq] at hc
  rcases hrest with hr | ⟨tail, hr⟩ <;> simp [hr] at hc

theorem RegisteredUnit.isNamed_lowercase_iff (registered : RegisteredUnit) (predefined : Bool)
    (key : UnitKey) (library : Identifier) :
    Hierarchy.isNamed registered.key (registered.vertex predefined)
        (Text.lowercase (key.render library.normalized)) = true ↔
      registered.key = Text.lowercase (key.render library.normalized) := by
  have hne : ∀ (name : Identifier) (rest : String), (∀ c ∈ rest.toList.head?, c = '(') →
      name.normalized ++ rest ≠ Text.lowercase (key.render library.normalized) := by
    intro name rest hrest he
    refine key.lowerChars_render_ne library name hrest ?_
    rw [← String.toList_append, he, Text.lowercase, String.toList_ofList]
  have hname : ∀ name : Identifier,
      name.normalized ≠ Text.lowercase (key.render library.normalized) := by
    intro name
    simpa using hne name "" (by simp)
  have harch : ∀ (entity name : Identifier), entity.normalized ++ "(" ++ name.normalized ++ ")" ≠
      Text.lowercase (key.render library.normalized) := by
    intro entity name
    simpa [String.append_assoc] using hne entity ("(" ++ name.normalized ++ ")") (by simp)
  rw [Hierarchy.isNamed, Bool.or_eq_true, decide_eq_true_eq]
  refine or_iff_left ?_
  obtain ⟨id, own, document, ident, context, body, doc⟩ := registered
  cases body with
  | entity => exact fun he => hname ident (of_decide_eq_true he)
  | architecture entity =>
    intro he
    rcases (Bool.or_eq_true _ _).mp he with he | he
    · exact hname entity.item (of_decide_eq_true he)
    · exact harch entity.item ident (of_decide_eq_true he)
  | configuration | package | context | packageBody => exact Bool.false_ne_true

theorem Store.Registry.exists_registered {store : Store} (h : store.Registry)
    {entry : String × UnitVertex} (hm : entry ∈ store.vertices)
    (hh : Hierarchy.isHierarchical entry.2 = true) :
    ∃ registered, store.registered? registered.id = some registered ∧ ∃ predefined,
      entry = (registered.key, registered.vertex predefined) := by
  rcases h.mem_vertices.mp hm with ⟨library, _, rfl⟩ | ⟨registered, hr, rfl⟩
  · simp [Hierarchy.isHierarchical, Library.vertex] at hh
  · exact ⟨registered, hr, _, rfl⟩

namespace Hierarchy

variable {hierarchy : Hierarchy} {name : String}

def candidates (hierarchy : Hierarchy) (name : String) : List Nat :=
  hierarchy.roots.filter fun id =>
    (hierarchy.graph.vertex? id).any fun entry => isNamed entry.1 entry.2 (Text.lowercase name)

theorem selectTopLevel_eq_ok_iff {root : Nat} :
    hierarchy.selectTopLevel name = .ok root ↔ hierarchy.candidates name = [root] := by
  rw [candidates]
  unfold selectTopLevel
  dsimp only
  split
  · next candidate hc => simp [hc]
  · next hc => simp [hc]
  · next hne _ => simpa using hne root

theorem selectTopLevel_of_candidates_eq_nil (h : hierarchy.candidates name = []) :
    hierarchy.selectTopLevel name =
      .error (.error .design ("No top level candidate named '" ++ name ++ "'") .noTopLevel) := by
  rw [candidates] at h
  unfold selectTopLevel
  dsimp only
  rw [h]

end Hierarchy

namespace Analysis.Faithful

variable {analysis : Analysis} {store : Store} {root : Nat} {key : String}

theorem exists_registered (h : analysis.Faithful store) {entry : String × UnitVertex}
    (hv : analysis.hierarchy.graph.vertex? root = some entry) :
    ∃ registered, store.registered? registered.id = some registered ∧ ∃ predefined,
      entry = (registered.key, registered.vertex predefined) := by
  have hm := List.mem_of_getElem? hv
  rw [h.hierarchy] at hm
  obtain ⟨hm, hh⟩ := List.mem_filter.mp (Hierarchy.vertices_graphOf analysis.dependency ▸ hm)
  exact h.settled.registry.exists_registered (h.vertices ▸ hm) hh

theorem exists_vertex_of_root (h : analysis.Faithful store)
    (hr : root ∈ analysis.hierarchy.roots) :
    ∃ entry, analysis.hierarchy.graph.vertex? root = some entry := by
  obtain ⟨id, ht, _⟩ := (h.rootsExact.mem_iff root).mp hr
  obtain ⟨key, vertex, hv, _⟩ := DependencyGraph.target?_eq_some_iff.mp ht
  exact ⟨(key, vertex), hv⟩

/-- A key names exactly the roots that have it in lower case as their key. -/
theorem mem_candidates_iff (h : analysis.Faithful store)
    (hk : analysis.hierarchy.graph.keyOf? root = some key) {other : Nat} :
    other ∈ analysis.hierarchy.candidates key ↔ other ∈ analysis.hierarchy.roots ∧
      analysis.hierarchy.graph.keyOf? other = some (Text.lowercase key) := by
  obtain ⟨entry, hv, rfl⟩ := Option.map_eq_some_iff.mp hk
  obtain ⟨registered, _, predefined, rfl⟩ := h.exists_registered hv
  rw [Hierarchy.candidates, List.mem_filter]
  refine and_congr_right fun hr => ?_
  obtain ⟨entry, hv⟩ := h.exists_vertex_of_root hr
  obtain ⟨found, _, predefined', rfl⟩ := h.exists_registered hv
  rw [Graph.keyOf?, hv, Option.any_some, Option.map_some, Option.some_inj]
  exact found.isNamed_lowercase_iff predefined' registered.unit.key registered.library.ident

theorem keyOf?_hierarchy_inj (h : analysis.Faithful store) {a b : Nat}
    (ha : analysis.hierarchy.graph.keyOf? a = some key)
    (hb : analysis.hierarchy.graph.keyOf? b = some key) : a = b :=
  Graph.keyOf?_inj h.hierarchyDerived.keys ha hb

theorem selectTopLevel_key_iff (h : analysis.Faithful store)
    (hk : analysis.hierarchy.graph.keyOf? root = some key) {other : Nat} :
    analysis.hierarchy.selectTopLevel key = .ok other ↔ other ∈ analysis.hierarchy.roots ∧
      analysis.hierarchy.graph.keyOf? other = some (Text.lowercase key) := by
  have hn : (analysis.hierarchy.candidates key).Nodup :=
    (h.rootsExact.sorted.imp Nat.ne_of_lt).filter _
  rw [Hierarchy.selectTopLevel_eq_ok_iff, eq_singleton_iff_mem hn, h.mem_candidates_iff hk]
  intro a ha b hb
  exact h.keyOf?_hierarchy_inj ((h.mem_candidates_iff hk).mp ha).2
    ((h.mem_candidates_iff hk).mp hb).2

end Analysis.Faithful

/-- The library and the unit have basic names, and so has the entity of an architecture. -/
structure RegisteredUnit.HasBasicNames (registered : RegisteredUnit) : Prop where
  library : registered.library.ident.isExtended = false
  unit : registered.unit.ident.isExtended = false
  primary : ∀ name, registered.unit.primaryName? = some name → name.isExtended = false

theorem RegisteredUnit.HasBasicNames.isLower_key {registered : RegisteredUnit}
    (h : registered.HasBasicNames) : ∀ c ∈ registered.key.toList, Text.isLower c = true := by
  have hascii : ∀ {c : Char}, c ∈ ".(body)".toList → Text.isLower c = true := by
    intro c hc
    have hall : (".(body)".toList.all fun c => c.toNat < 128 && !c.isUpper) = true := by decide
    have := List.all_eq_true.mp hall c hc
    simp only [Bool.and_eq_true, decide_eq_true_eq, Bool.not_eq_true'] at this
    exact Text.isLower_of_ascii this.1 this.2
  have hunit := isLower_normalized h.unit
  rw [RegisteredUnit.key, UnitKey.toList_render]
  simp only [List.forall_mem_append, List.forall_mem_cons]
  refine ⟨isLower_normalized h.library, hascii (by simp), ?_⟩
  obtain ⟨id, own, document, ident, context, body, doc⟩ := registered
  cases body with
  | architecture entity =>
    refine ⟨isLower_normalized (h.primary entity.item rfl), ?_⟩
    simp only [DesignUnit.key, UnitKey.suffix, List.forall_mem_cons, List.forall_mem_append]
    exact ⟨hascii (by simp), hunit, hascii (by simp), List.forall_mem_nil _⟩
  | packageBody => exact ⟨hunit, fun c hc => hascii (List.mem_cons_of_mem _ hc)⟩
  | entity | configuration | package | context => exact ⟨hunit, List.forall_mem_nil _⟩

/-- What the key of a root selects: the root that has the key in lower case as its own key, if there
is one. This is the root itself exactly if no character of the key has another lower case. It is
always the root itself where all names in the key are basic identifiers. -/
structure Hierarchy.SelectsByKey (hierarchy : Hierarchy) (root : Nat)
    (registered : RegisteredUnit) : Prop where
  vertex : hierarchy.graph.keyOf? root = some registered.key
  ok_iff : ∀ other, hierarchy.selectTopLevel registered.key = .ok other ↔
    other ∈ hierarchy.roots ∧
      hierarchy.graph.keyOf? other = some (Text.lowercase registered.key)
  error : (∀ other ∈ hierarchy.roots,
      hierarchy.graph.keyOf? other ≠ some (Text.lowercase registered.key)) →
    hierarchy.selectTopLevel registered.key = .error (.error .design
      ("No top level candidate named '" ++ registered.key ++ "'") .noTopLevel)
  own_iff : hierarchy.selectTopLevel registered.key = .ok root ↔
    ∀ c ∈ registered.key.toList, Text.isLower c = true
  basic : registered.HasBasicNames → hierarchy.selectTopLevel registered.key = .ok root

theorem Analysis.Faithful.exists_selectsByKey {analysis : Analysis} {store : Store}
    (h : analysis.Faithful store) {root : Nat} (hr : root ∈ analysis.hierarchy.roots) :
    ∃ registered, store.registered? registered.id = some registered ∧
      analysis.hierarchy.SelectsByKey root registered := by
  obtain ⟨entry, hv⟩ := h.exists_vertex_of_root hr
  obtain ⟨registered, hreg, predefined, rfl⟩ := h.exists_registered hv
  have hk : analysis.hierarchy.graph.keyOf? root = some registered.key := by
    rw [Graph.keyOf?, hv, Option.map_some]
  have hown : analysis.hierarchy.selectTopLevel registered.key = .ok root ↔
      ∀ c ∈ registered.key.toList, Text.isLower c = true := by
    rw [h.selectTopLevel_key_iff hk, hk, Option.some_inj, eq_comm, Text.lowercase_eq_self_iff]
    exact and_iff_right hr
  refine ⟨registered, hreg, hk, fun _ => h.selectTopLevel_key_iff hk, fun hn => ?_, hown,
    fun hb => hown.mpr hb.isLower_key⟩
  refine Hierarchy.selectTopLevel_of_candidates_eq_nil (List.eq_nil_iff_forall_not_mem.mpr ?_)
  intro other ho
  obtain ⟨hm, he⟩ := (h.mem_candidates_iff hk).mp ho
  exact hn other hm he

namespace Design

/-- In every analyzed design a root is selected by its own key exactly if the key is in lower case,
as it is wherever its names are basic identifiers. -/
theorem Reachable.root_selected_iff {design : Design} {analysis : Analysis} (h : design.Reachable)
    (ha : design.analysis = some analysis) {root : Nat} (hr : root ∈ analysis.hierarchy.roots) :
    ∃ registered, design.store.registered? registered.id = some registered ∧
      analysis.hierarchy.SelectsByKey root registered := by
  obtain ⟨store, hb, hs, rfl⟩ := h.grounded.analyzed analysis ha
  rw [hs]
  exact hb.registry.faithful_analyze.exists_selectsByKey hr

/-- Two entities whose extended names differ in the case of a letter only, and an entity with a
basic name. -/
def mills : Design :=
  let entity (ident : Identifier) : DesignUnit := { ident, body := .entity none none [] [] }
  let design := ((withConfig {}).createLibrary "mills").design
  (design.addDocument
    { units := [entity ⟨"\\Wheel\\", by decide +kernel⟩, entity ⟨"\\wheel\\", by decide +kernel⟩,
        entity ⟨"Sluice", by decide +kernel⟩] } ⟨0⟩).design

theorem mills_reachable : mills.analyze.design.Reachable :=
  .analyze (.addDocument _ _ (.createLibrary _ (.start _)))

theorem mills_root_selected : mills.analyze.design.Reachable ∧
    ∃ analysis, mills.analyze.design.analysis = some analysis ∧ 2 ∈ analysis.hierarchy.roots ∧
      ∃ registered, mills.analyze.design.store.registered? registered.id = some registered ∧
        analysis.hierarchy.SelectsByKey 2 registered := by
  have hr : 2 ∈ mills.store.analyze.analysis.hierarchy.roots := by decide +kernel
  exact ⟨mills_reachable, mills.store.analyze.analysis, rfl, hr,
    mills_reachable.root_selected_iff rfl hr⟩

/-- The key of the first root selects the second one. -/
theorem mills_other_selected : mills.analyze.design.Reachable ∧
    ∃ analysis, mills.analyze.design.analysis = some analysis ∧
      analysis.hierarchy.roots = [0, 1, 2] ∧
      analysis.hierarchy.graph.keyOf? 0 = some "mills.\\Wheel\\" ∧
      (analysis.hierarchy.selectTopLevel "mills.\\Wheel\\").toOption = some 1 :=
  ⟨mills_reachable, mills.store.analyze.analysis, rfl, by decide +kernel, by decide +kernel,
    by decide +kernel⟩

end Design

end Vhdl
