import Vhdl.Proofs.Traversal

/-! # The scopes of instances

A statement stands inside a chain of blocks and generate statements, and inside a generate statement
in one of its alternatives. A search reports the labels of these statements and of the alternatives
as the scope. The instances that are found have the labels of the statements only, so the two scopes
differ exactly for the instances in an alternative with a label.
-/

namespace Vhdl

/-- An enclosing statement by its label, and the alternative of it by its own label. -/
structure Frame where
  label : Option Identifier
  alternative : Option Identifier

namespace Frame

def statementLabels (frames : List Frame) : List Identifier :=
  frames.flatMap (·.label.toList)

/-- The labels of the enclosing statements, each with that of the alternative behind it. -/
def labels (frames : List Frame) : List Identifier :=
  frames.flatMap fun frame => frame.label.toList ++ frame.alternative.toList

end Frame

/-- The statement stands in the list inside the statements of the frames, outermost first. -/
inductive ConcStmt.Under (statement : ConcStmt) : List Frame → List ConcStmt → Prop where
  | here {statements : List ConcStmt} : statement ∈ statements → Under statement [] statements
  | inside {statements body : List ConcStmt} {outer : ConcStmt} {alternative : Option Identifier}
      {frames : List Frame} : outer ∈ statements → (alternative, body) ∈ outer.kind.parts →
      Under statement frames body →
      Under statement (⟨outer.label, alternative⟩ :: frames) statements

/-- All concurrent statements with the frames around them, in pre-order. -/
def ConcStmt.framed (statements : List ConcStmt) : List (List Frame × ConcStmt) :=
  statements.flatMap fun statement => ([], statement) ::
    statement.kind.parts.attach.flatMap fun part =>
      (ConcStmt.framed part.1.2).map fun entry => (⟨statement.label, part.1.1⟩ :: entry.1, entry.2)
termination_by sizeOf statements
decreasing_by exact ConcStmt.sizeOf_part ‹_› part.2

def ConcStmt.framedPart (statement : ConcStmt) (part : Option Identifier × List ConcStmt) :
    List (List Frame × ConcStmt) :=
  (ConcStmt.framed part.2).map fun entry => (⟨statement.label, part.1⟩ :: entry.1, entry.2)

theorem ConcStmt.framed_eq (statements : List ConcStmt) : ConcStmt.framed statements =
    statements.flatMap fun statement =>
      ([], statement) :: statement.kind.parts.flatMap statement.framedPart := by
  rw [ConcStmt.framed]
  congr 1
  funext statement
  exact congrArg (_ :: List.flatten ·) (List.attach_map_val (f := statement.framedPart))

theorem ConcStmt.mem_framed_iff {statements : List ConcStmt} {frames : List Frame}
    {statement : ConcStmt} :
    (frames, statement) ∈ ConcStmt.framed statements ↔ statement.Under frames statements := by
  induction statements using ConcStmt.list_induction generalizing frames with
  | step statements ih =>
    rw [ConcStmt.framed_eq]
    simp only [ConcStmt.framedPart, List.mem_flatMap, List.mem_cons, Prod.mk.injEq, List.mem_map,
      Prod.exists]
    constructor
    · rintro ⟨outer, ho, ⟨rfl, rfl⟩ | ⟨alternative, body, hp, inner, _, hi, rfl, rfl⟩⟩
      · exact .here ho
      · exact .inside ho hp ((ih outer ho _ hp).mp hi)
    · rintro (ho | ⟨ho, hp, hu⟩)
      · exact ⟨statement, ho, .inl ⟨rfl, rfl⟩⟩
      · exact ⟨_, ho, .inr ⟨_, _, hp, _, _, (ih _ ho _ hp).mpr hu, rfl, rfl⟩⟩

def Visit.located? : Visit → Option (List Identifier × ConcStmt)
  | .concurrent scope statement => some (scope, statement)
  | .sequential _ => none

def Walk.located (walks : List Walk) : List (List Identifier × ConcStmt) :=
  (Walk.visitsAll walks).filterMap Visit.located?

namespace Walk

@[simp] theorem located_append (xs ys : List Walk) :
    located (xs ++ ys) = located xs ++ located ys := by
  rw [located, visitsAll_append, List.filterMap_append]
  rfl

theorem located_flatMap {α : Type} (walks : α → List Walk) (items : List α) :
    located (items.flatMap walks) = items.flatMap fun item => located (walks item) := by
  induction items with
  | nil => rfl
  | cons item rest ih => rw [List.flatMap_cons, located_append, ih, List.flatMap_cons]

theorem located_node (scope : List Identifier) (statement : ConcStmt) (below : List Walk) :
    located [.node (.concurrent scope statement) below] = (scope, statement) :: located below := by
  simp [located, visitsAll, visits, Visit.located?]

end Walk

theorem SeqStmt.located_walks (statements : List SeqStmt) :
    Walk.located (SeqStmt.walks statements) = [] := by
  refine List.filterMap_eq_nil_iff.mpr fun visit hv => ?_
  have hn := List.filterMap_eq_nil_iff.mp (SeqStmt.statements_walks statements) visit hv
  cases visit with
  | concurrent => cases hn
  | sequential => rfl

/-- A walk reports the labels of all frames. -/
theorem ConcStmt.located_walks (scope : List Identifier) (statements : List ConcStmt) :
    Walk.located (ConcStmt.walks scope statements) = (ConcStmt.framed statements).map
      fun entry => (scope ++ Frame.labels entry.1, entry.2) := by
  induction statements using ConcStmt.list_induction generalizing scope with
  | step statements ih =>
    rw [ConcStmt.walks_eq_map, List.map_eq_flatMap, Walk.located_flatMap, ConcStmt.framed_eq,
      List.map_flatMap]
    refine List.flatMap_congr fun statement hs => ?_
    obtain ⟨label, kind⟩ := statement
    rw [ConcStmt.walk, Walk.located_node, ConcKind.walks_eq, Walk.located_append,
      SeqStmt.located_walks, List.append_nil, Walk.located_flatMap, List.map_cons, List.map_flatMap]
    congr 1
    · simp [Frame.labels]
    · refine List.flatMap_congr fun part hp => ?_
      rw [partWalks, ih _ hs part hp, ConcStmt.framedPart, List.map_map]
      simp [Frame.labels, Function.comp_def, ConcStmt.label]

theorem ConcStmt.instancesAll_eq (scope : List Identifier) (statements : List ConcStmt) :
    ConcStmt.instancesAll scope statements = (ConcStmt.framed statements).filterMap
      fun entry => entry.2.found? (scope ++ Frame.statementLabels entry.1) := by
  induction statements using ConcStmt.list_induction generalizing scope with
  | step statements ih =>
    rw [ConcStmt.instancesAll_eq_flatMap, ConcStmt.framed_eq, List.filterMap_flatMap]
    refine List.flatMap_congr fun statement hs => ?_
    rw [ConcStmt.instances_eq, List.filterMap_eq_flatMap_toList, List.flatMap_cons,
      ← List.filterMap_eq_flatMap_toList, List.filterMap_flatMap]
    congr 1
    · simp [Frame.statementLabels]
    · refine List.flatMap_congr fun part hp => ?_
      rw [ih _ hs part hp, ConcStmt.framedPart, List.filterMap_map]
      simp [Frame.statementLabels, Function.comp_def]

theorem filterMap_located_visited (statements : List ConcStmt) :
    (visited statements).filterMap Visit.located? = (ConcStmt.framed statements).map
      fun entry => (Frame.labels entry.1, entry.2) := by
  rw [visited_eq]
  exact ConcStmt.located_walks [] statements

def shownInstances (statements : List ConcStmt) : List FoundInstance :=
  ((visited statements).filterMap Visit.located?).filterMap fun entry => entry.2.found? entry.1

def framedInstances (statements : List ConcStmt) :
    List (List Frame × Option Identifier × Instantiation) :=
  (ConcStmt.framed statements).filterMap fun entry => entry.2.instance?.map (entry.1, ·)

theorem mem_framedInstances_iff {statements : List ConcStmt} {frames : List Frame}
    {label : Option Identifier} {instantiation : Instantiation} :
    (frames, label, instantiation) ∈ framedInstances statements ↔
      (ConcStmt.mk label (.instantiation instantiation)).Under frames statements := by
  simp only [framedInstances, List.mem_filterMap, Prod.exists, ConcStmt.mem_framed_iff,
    Option.map_eq_some_iff, ConcStmt.instance?_eq_some_iff, Prod.mk.injEq]
  constructor
  · rintro ⟨_, _, hu, _, _, rfl, rfl, rfl, rfl⟩
    exact hu
  · intro hu
    exact ⟨_, _, hu, _, _, rfl, rfl, rfl, rfl⟩

theorem filterMap_found (scope : List Frame → List Identifier) (statements : List ConcStmt) :
    ((ConcStmt.framed statements).filterMap fun entry => entry.2.found? (scope entry.1)) =
      (framedInstances statements).map fun entry => ⟨scope entry.1, entry.2.1, entry.2.2⟩ := by
  rw [framedInstances, List.map_filterMap]
  refine List.filterMap_congr fun entry _ => ?_
  rw [ConcStmt.found?, Option.map_map]
  rfl

theorem shownInstances_eq (statements : List ConcStmt) :
    shownInstances statements = (framedInstances statements).map
      fun entry => ⟨Frame.labels entry.1, entry.2.1, entry.2.2⟩ := by
  rw [shownInstances, filterMap_located_visited, List.filterMap_map, ← filterMap_found]
  rfl

theorem findInstances_eq (statements : List ConcStmt) :
    findInstances statements = (framedInstances statements).map
      fun entry => ⟨Frame.statementLabels entry.1, entry.2.1, entry.2.2⟩ := by
  rw [← filterMap_found]
  exact ConcStmt.instancesAll_eq [] statements

namespace Frame

variable {frames : List Frame}

theorem length_statementLabels_le (frames : List Frame) :
    (statementLabels frames).length ≤ (labels frames).length := by
  induction frames with
  | nil => exact Nat.le_refl 0
  | cons frame rest ih =>
    simp only [statementLabels, labels, List.flatMap_cons, List.length_append] at ih ⊢
    omega

theorem labels_eq_statementLabels_iff :
    labels frames = statementLabels frames ↔ ∀ frame ∈ frames, frame.alternative = none := by
  induction frames with
  | nil => simp [labels, statementLabels]
  | cons frame rest ih =>
    have hle := length_statementLabels_le rest
    rw [List.forall_mem_cons, ← ih]
    cases ha : frame.alternative with
    | none => simp [labels, statementLabels, ha]
    | some ident =>
      simp only [labels, statementLabels, List.flatMap_cons, List.append_assoc,
        List.append_cancel_left_eq, ha] at hle ⊢
      refine iff_of_false (fun he => ?_) (by simp)
      -- The lists differ in length, since those of the other frames do not make up for the label.
      have hlen := congrArg List.length he
      simp only [Option.toList_some, List.cons_append, List.nil_append, List.length_cons] at hlen
      omega

end Frame

section First

variable {α : Type} (pick : Visit → Option α)

/-- Stop at the first visit from which something is picked. -/
def stopAt (_ : Option α) (visit : Visit) : Option α × Verdict :=
  match pick visit with
  | some found => (some found, .found)
  | none => (none, .descend)

mutual

theorem Walk.search_stopAt : (walk : Walk) → walk.search (stopAt pick) none =
    (walk.visits.findSome? pick, (walk.visits.findSome? pick).isSome)
  | .node visit below => by
    rw [Walk.search, Walk.visits, List.findSome?_cons, stopAt]
    cases pick visit with
    | some found => rfl
    | none => exact Walk.searchAll_stopAt below

theorem Walk.searchAll_stopAt : (walks : List Walk) → Walk.searchAll (stopAt pick) none walks =
    ((Walk.visitsAll walks).findSome? pick, ((Walk.visitsAll walks).findSome? pick).isSome)
  | [] => rfl
  | walk :: rest => by
    rw [Walk.searchAll, walk.search_stopAt, Walk.visitsAll, List.findSome?_append]
    cases walk.visits.findSome? pick with
    | some found => rfl
    | none => exact Walk.searchAll_stopAt rest

end

end First

def Visit.scopeOf? (text : String) : Visit → Option (List Identifier)
  | .concurrent scope statement =>
    if statement.label.any (·.isNamed text) then some scope else none
  | .sequential _ => none

theorem findLabel?_judge (text : String) :
    findLabel?.judge text = stopAt (Visit.scopeOf? text) := by
  funext state visit
  match visit with
  | .sequential _ | .concurrent _ (.mk none _) => rfl
  | .concurrent scope (.mk (some ident) kind) =>
    by_cases h : ident.isNamed text = true <;>
      simp [findLabel?.judge, stopAt, Visit.scopeOf?, ConcStmt.label, h]

/-- A label is found with the scope of the first statement that has it. -/
theorem findLabel?_eq (text : String) (statements : List ConcStmt) :
    findLabel? text statements = (((visited statements).filterMap Visit.located?).find?
      fun entry => entry.2.label.any (·.isNamed text)).map Prod.fst := by
  rw [findLabel?, findLabel?_judge, searchStatements_eq, Walk.searchAll_stopAt, ← visited_eq]
  induction visited statements with
  | nil => rfl
  | cons visit rest ih =>
    rw [List.findSome?_cons, List.filterMap_cons]
    cases visit with
    | sequential => exact ih
    | concurrent scope statement =>
      simp only [Visit.located?, List.find?_cons, Visit.scopeOf?]
      cases statement.label.any (·.isNamed text) with
      | true => rfl
      | false => exact ih

def FoundInstance.concurrent (found : FoundInstance) : ConcStmt :=
  .mk found.label (.instantiation found.statement)

/-- The instances that a search is shown and those that are found are the same statements one by
one. The scope that the search reports has the labels of the statements around and of the
alternatives in them, that of the instance has the labels of the statements only. So the scopes
agree exactly if no instance stands in an alternative with a label. A label is found with the scope
that the search reports. -/
theorem instance_scopes (statements : List ConcStmt) :
    List.Forall₂ (fun shown found => ∃ frames, found.concurrent.Under frames statements ∧
        found.scope = Frame.statementLabels frames ∧
        shown = { found with scope := Frame.labels frames })
      (shownInstances statements) (findInstances statements) ∧
    (shownInstances statements = findInstances statements ↔ ∀ frames label instantiation,
      (ConcStmt.mk label (.instantiation instantiation)).Under frames statements →
        ∀ frame ∈ frames, frame.alternative = none) ∧
    ∀ text, findLabel? text statements = (((visited statements).filterMap Visit.located?).find?
      fun entry => entry.2.label.any (·.isNamed text)).map Prod.fst := by
  refine ⟨?_, ?_, fun text => findLabel?_eq text statements⟩
  · rw [shownInstances_eq, findInstances_eq, List.forall₂_map_left_iff, List.forall₂_map_right_iff,
      List.forall₂_same]
    rintro ⟨frames, label, instantiation⟩ hm
    exact ⟨frames, mem_framedInstances_iff.mp hm, rfl, rfl⟩
  · rw [shownInstances_eq, findInstances_eq, List.map_inj_left]
    simp [mem_framedInstances_iff, Frame.labels_eq_statementLabels_iff]

def dock : List ConcStmt :=
  let hook : ConcStmt := .mk (some ⟨"hook", by decide +kernel⟩)
    (.instantiation { unit := .component (.simple ⟨"winch", by decide +kernel⟩) })
  let wide : GenerateBody := .mk (some ⟨"wide", by decide +kernel⟩) none [hook]
  [.mk (some ⟨"bay", by decide +kernel⟩)
    (.ifGenerate [.mk (.name (.simple ⟨"tall", by decide +kernel⟩)) wide] none)]

/-- The search reports the label of the alternative, and the instance does not have it. -/
theorem dock_scopes_differ : shownInstances dock ≠ findInstances dock ∧
    (findInstances dock).map (·.scope.map Identifier.text) = [["bay"]] ∧
    (findLabel? "hook" dock).map (·.map Identifier.text) = some ["bay", "wide"] := by
  have hs : (shownInstances dock).map (·.scope.length) = [2] := by decide +kernel
  have hf : (findInstances dock).map (·.scope.length) = [1] := by decide +kernel
  refine ⟨fun he => ?_, by decide +kernel, by decide +kernel⟩
  rw [he, hf] at hs
  cases hs

end Vhdl
