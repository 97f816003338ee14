import Mathlib.Data.Set.Card
import Vhdl.Proofs.Nesting

/-! # The order of a walk

A statement list and all that is inside its statements form a tree, in which a position is a path of
places. A search that never stops is shown the statement at every position once, outer statements
before what is inside and the rest from left to right. The instances of the list and the counts of
its processes and sequential statements are those of the same sequence.
-/

namespace Vhdl

inductive Stmt where
  | concurrent (statement : ConcStmt)
  | sequential (statement : SeqStmt)

def Visit.statement : Visit → Stmt
  | .concurrent _ statement => .concurrent statement
  | .sequential statement => .sequential statement

namespace Stmt

def children : Stmt → List Stmt
  | .concurrent statement =>
    statement.kind.bodies.flatten.map .concurrent ++ statement.kind.steps.map .sequential
  | .sequential statement => statement.kind.bodies.flatten.map .sequential

def at? : Stmt → List Nat → Option Stmt
  | statement, [] => some statement
  | statement, place :: path => statement.children[place]?.bind (·.at? path)

/-- The statement at a position of a tree, which is its place among the roots and the path on from
there. -/
def find? (roots : List Stmt) : List Nat → Option Stmt
  | [] => none
  | place :: path => roots[place]?.bind (·.at? path)

def isProcess : Stmt → Bool
  | .concurrent (.mk _ (.process _ _)) => true
  | _ => false

def isSequential : Stmt → Bool
  | .concurrent _ => false
  | .sequential _ => true

/-- The sequence has the statement at every position once. An outer statement comes before what is
inside it, and what is to the left before what is to the right. -/
def PreOrder (roots sequence : List Stmt) : Prop :=
  ∃ places : List (List Nat × Stmt), places.Pairwise (fun a b => List.Lex (· < ·) a.1 b.1) ∧
    (∀ position statement, (position, statement) ∈ places ↔
      find? roots position = some statement) ∧ places.map Prod.snd = sequence

variable {statement found : Stmt} {roots rest sequence below others : List Stmt}

theorem find?_eq_some_cons {position : List Nat} (h : find? roots position = some found) :
    ∃ place path, position = place :: path := by
  cases position with
  | nil => cases h
  | cons place path => exact ⟨place, path, rfl⟩

/-- The positions at and below the first root start with its place, and those of the other roots are
moved on by one place. -/
theorem find?_cons_eq_some_iff {position : List Nat} :
    find? (statement :: rest) position = some found ↔
      (position = [0] ∧ found = statement ∨
        ∃ path, find? statement.children path = some found ∧ position = 0 :: path) ∨
      ∃ path, find? rest path = some found ∧ position = path.modifyHead (· + 1) := by
  constructor
  · intro h
    match position with
    | [] => cases h
    | [0] => exact .inl (.inl ⟨rfl, (Option.some.inj h).symm⟩)
    | 0 :: place :: path => exact .inl (.inr ⟨place :: path, h, rfl⟩)
    | (place + 1) :: path => exact .inr ⟨place :: path, h, rfl⟩
  · rintro ((⟨rfl, rfl⟩ | ⟨path, h, rfl⟩) | ⟨path, h, rfl⟩)
    · rfl
    · obtain ⟨place, path, rfl⟩ := find?_eq_some_cons h
      exact h
    · obtain ⟨place, path, rfl⟩ := find?_eq_some_cons h
      exact h

theorem lex_modifyHead_succ {a b : List Nat} (h : List.Lex (· < ·) a b) :
    List.Lex (· < ·) (a.modifyHead (· + 1)) (b.modifyHead (· + 1)) := by
  cases h with
  | nil => exact .nil
  | cons h => exact .cons h
  | rel h => exact .rel (Nat.succ_lt_succ h)

theorem PreOrder.nil : PreOrder [] [] := by
  refine ⟨[], .nil, fun position statement => ?_, rfl⟩
  cases position <;> simp [find?]

theorem PreOrder.cons (hb : PreOrder statement.children below) (hr : PreOrder rest sequence) :
    PreOrder (statement :: rest) (statement :: (below ++ sequence)) := by
  obtain ⟨inside, hi, hmi, rfl⟩ := hb
  obtain ⟨behind, hb, hmb, rfl⟩ := hr
  -- The other roots have later places than the first one, whatever is inside it.
  have hlater : ∀ entry ∈ behind, ∀ path,
      List.Lex (· < ·) (0 :: path) (entry.1.modifyHead (· + 1)) := by
    intro entry hm path
    obtain ⟨place, rest, he⟩ := find?_eq_some_cons ((hmb entry.1 entry.2).mp hm)
    rw [he]
    exact .rel (Nat.succ_pos place)
  refine ⟨([0], statement) :: (inside.map (Prod.map (0 :: ·) id) ++
    behind.map (Prod.map (List.modifyHead (· + 1)) id)), ?_, fun position found => ?_, ?_⟩
  · refine List.pairwise_cons.mpr ⟨?_, List.pairwise_append.mpr ⟨?_, ?_, ?_⟩⟩
    · rw [List.forall_mem_append, List.forall_mem_map, List.forall_mem_map]
      refine ⟨fun entry hm => ?_, fun entry hm => hlater entry hm []⟩
      obtain ⟨place, path, he⟩ := find?_eq_some_cons ((hmi entry.1 entry.2).mp hm)
      change List.Lex (· < ·) [0] (0 :: entry.1)
      rw [he]
      exact .cons .nil
    · exact List.pairwise_map.mpr (hi.imp .cons)
    · exact List.pairwise_map.mpr (hb.imp lex_modifyHead_succ)
    · simp only [List.forall_mem_map]
      exact fun entry _ other hm => hlater other hm entry.1
  · rw [find?_cons_eq_some_iff]
    simp [← hmi, ← hmb, or_assoc, eq_comm]
  · simp [Function.comp_def]

/-- The number of positions of a statement with a property is the number of such statements in the
sequence. -/
theorem PreOrder.ncard_eq_countP (h : PreOrder roots sequence) (test : Stmt → Bool) :
    {position | ∃ statement, find? roots position = some statement ∧ test statement}.ncard =
      sequence.countP test := by
  obtain ⟨places, hp, hm, rfl⟩ := h
  have hn : (places.map Prod.fst).Nodup := by
    refine List.pairwise_map.mpr (hp.imp fun hl he => ?_)
    exact irrefl_of (List.Lex (· < ·)) _ (he ▸ hl)
  have hs : {position | ∃ statement, find? roots position = some statement ∧ test statement} =
      (((places.filter (test ·.2)).map Prod.fst).toFinset : Set (List Nat)) := by
    ext position
    simp [← hm]
  rw [hs, Set.ncard_coe_finset, List.toFinset_card_of_nodup, List.length_map,
    ← List.countP_eq_length_filter, List.countP_map]
  · rfl
  · exact (List.filter_sublist.map _).nodup hn

/-- The sequence lists each root, followed by what is inside it. -/
inductive Listing : List Stmt → List Stmt → Prop where
  | nil : Listing [] []
  | cons {statement : Stmt} {rest below sequence : List Stmt} : Listing statement.children below →
      Listing rest sequence → Listing (statement :: rest) (statement :: (below ++ sequence))

theorem Listing.preOrder (h : Listing roots sequence) : PreOrder roots sequence := by
  induction h with
  | nil => exact .nil
  | cons _ _ ihb ihr => exact ihb.cons ihr

theorem Listing.append (h : Listing roots sequence) (h' : Listing rest others) :
    Listing (roots ++ rest) (sequence ++ others) := by
  induction h with
  | nil => exact h'
  | cons hb _ _ ih =>
    rw [List.cons_append, List.cons_append, List.append_assoc]
    exact hb.cons ih

end Stmt

def Walk.sequence (walks : List Walk) : List Stmt :=
  (Walk.visitsAll walks).map Visit.statement

namespace Walk

@[simp] theorem sequence_append (xs ys : List Walk) :
    sequence (xs ++ ys) = sequence xs ++ sequence ys := by
  rw [sequence, visitsAll_append, List.map_append]
  rfl

theorem sequence_cons (visit : Visit) (below rest : List Walk) :
    sequence (.node visit below :: rest) =
      visit.statement :: (sequence below ++ sequence rest) := by
  simp [sequence, visitsAll, visits]

end Walk

open Stmt

theorem Stmt.listing_map {α : Type} {items : List α} {root : α → Stmt} {walk : α → Walk}
    (h : ∀ item ∈ items, ∃ visit below, walk item = .node visit below ∧
      visit.statement = root item ∧ Listing (root item).children (Walk.sequence below)) :
    Listing (items.map root) (Walk.sequence (items.map walk)) := by
  induction items with
  | nil => exact .nil
  | cons item rest ih =>
    rw [List.forall_mem_cons] at h
    obtain ⟨⟨visit, below, hw, hs, hl⟩, hr⟩ := h
    rw [List.map_cons, List.map_cons, hw, Walk.sequence_cons, hs]
    exact hl.cons (ih hr)

theorem Stmt.listing_flatMap {α : Type} {lists : List α} {roots : α → List Stmt}
    {walks : α → List Walk}
    (h : ∀ list ∈ lists, Listing (roots list) (Walk.sequence (walks list))) :
    Listing (lists.flatMap roots) (Walk.sequence (lists.flatMap walks)) := by
  induction lists with
  | nil => exact .nil
  | cons list rest ih =>
    rw [List.forall_mem_cons] at h
    rw [List.flatMap_cons, List.flatMap_cons, Walk.sequence_append]
    exact h.1.append (ih h.2)

theorem SeqStmt.listing_walks (statements : List SeqStmt) :
    Listing (statements.map .sequential) (Walk.sequence (SeqStmt.walks statements)) := by
  induction statements using SeqStmt.list_induction with
  | step statements ih =>
    rw [SeqStmt.walks_eq_map]
    refine listing_map fun statement hs => ?_
    obtain ⟨label, kind⟩ := statement
    refine ⟨_, _, rfl, rfl, ?_⟩
    rw [SeqKind.walks_eq, children, List.map_flatten, ← List.flatMap_def]
    exact listing_flatMap (ih _ hs)

theorem ConcStmt.listing_walks (scope : List Identifier) (statements : List ConcStmt) :
    Listing (statements.map .concurrent) (Walk.sequence (ConcStmt.walks scope statements)) := by
  induction statements using ConcStmt.list_induction generalizing scope with
  | step statements ih =>
    rw [ConcStmt.walks_eq_map]
    refine listing_map fun statement hs => ?_
    obtain ⟨label, kind⟩ := statement
    refine ⟨_, _, rfl, rfl, ?_⟩
    rw [ConcKind.walks_eq, Walk.sequence_append, children, ConcStmt.kind, ← kind.map_parts,
      List.map_flatten, List.map_map, ← List.flatMap_def]
    refine Listing.append ?_ (SeqStmt.listing_walks kind.steps)
    exact listing_flatMap fun part hp => ih _ hs part hp _

section Search

variable {σ : Type} (see : σ → Visit → σ)

mutual

theorem Walk.search_descend (state : σ) : (walk : Walk) →
    walk.search (fun state visit => (see state visit, .descend)) state =
      (walk.visits.foldl see state, false)
  | .node visit below => Walk.searchAll_descend (see state visit) below

theorem Walk.searchAll_descend (state : σ) : (walks : List Walk) →
    Walk.searchAll (fun state visit => (see state visit, .descend)) state walks =
      ((Walk.visitsAll walks).foldl see state, false)
  | [] => rfl
  | walk :: rest => by
    rw [Walk.searchAll, walk.search_descend, Walk.visitsAll, List.foldl_append]
    exact Walk.searchAll_descend _ rest

end

end Search

def visited (statements : List ConcStmt) : List Visit :=
  (searchStatements (fun shown visit => (shown ++ [visit], .descend)) [] statements).1

theorem visited_eq (statements : List ConcStmt) :
    visited statements = Walk.visitsAll (ConcStmt.walks [] statements) := by
  rw [visited, searchStatements_eq, Walk.searchAll_descend]
  simp [List.foldl_append_eq_append, ← List.flatMap_def]

theorem searchStatements_descend {σ : Type} (see : σ → Visit → σ) (state : σ)
    (statements : List ConcStmt) :
    searchStatements (fun state visit => (see state visit, .descend)) state statements =
      ((visited statements).foldl see state, false) := by
  rw [visited_eq, searchStatements_eq, Walk.searchAll_descend]

def StatementCount.add (count : StatementCount) (visit : Visit) : StatementCount where
  processes := count.processes + if visit.statement.isProcess then 1 else 0
  sequential := count.sequential + if visit.statement.isSequential then 1 else 0

theorem countStatements_judge (count : StatementCount) (visit : Visit) :
    countStatements.judge count visit = (count.add visit, .descend) := by
  match visit with
  | .sequential _ => rfl
  | .concurrent _ (.mk _ kind) => cases kind <;> rfl

theorem foldl_add (visits : List Visit) (count : StatementCount) :
    visits.foldl StatementCount.add count =
      { processes := count.processes + (visits.map Visit.statement).countP isProcess
        sequential := count.sequential + (visits.map Visit.statement).countP isSequential } := by
  induction visits generalizing count with
  | nil => rfl
  | cons visit rest ih =>
    simp only [List.foldl_cons, ih, StatementCount.add, List.map_cons, List.countP_cons]
    congr 1 <;> omega

theorem countStatements_eq (statements : List ConcStmt) :
    countStatements statements =
      { processes := ((visited statements).map Visit.statement).countP isProcess
        sequential := ((visited statements).map Visit.statement).countP isSequential } := by
  have hj : countStatements.judge = fun count visit => (count.add visit, .descend) := by
    funext count visit
    exact countStatements_judge count visit
  rw [countStatements, hj, searchStatements_descend, foldl_add]
  simp

/-- A search that never stops is shown the statements in pre-order, each one once. The instances are
the instantiation statements that it is shown, in the same order and with their labels, and the
counts are the numbers of processes and of sequential statements in the tree. -/
theorem visited_exact (statements : List ConcStmt) :
    (∀ (σ : Type) (see : σ → Visit → σ) (state : σ),
      searchStatements (fun state visit => (see state visit, .descend)) state statements =
        ((visited statements).foldl see state, false)) ∧
    PreOrder (statements.map .concurrent) ((visited statements).map Visit.statement) ∧
    (findInstances statements).map FoundInstance.labelled =
      ((visited statements).filterMap Visit.concurrent?).filterMap ConcStmt.instance? ∧
    (countStatements statements).processes = {position | ∃ statement,
      find? (statements.map .concurrent) position = some statement ∧ statement.isProcess}.ncard ∧
    (countStatements statements).sequential = {position | ∃ statement,
      find? (statements.map .concurrent) position = some statement ∧
        statement.isSequential}.ncard := by
  have hp : PreOrder (statements.map .concurrent) ((visited statements).map Visit.statement) := by
    rw [visited_eq]
    exact (ConcStmt.listing_walks [] statements).preOrder
  refine ⟨fun _ see state => searchStatements_descend see state statements, hp, ?_, ?_, ?_⟩
  · rw [map_findInstances, visited_eq]
    rfl
  · rw [countStatements_eq, hp.ncard_eq_countP]
  · rw [countStatements_eq, hp.ncard_eq_countP]

end Vhdl
