import Vhdl.Dependency.Build

/-! # Compile order

A document depends on another one if a unit in it depends on a unit there. Documents are compiled
after those they depend on, and among the documents that are ready the one that was added first
comes first.
-/

namespace Vhdl

/-- The first dependency between units of two documents, by the keys of the units. -/
structure CompileEdge where
  sourceUnit : String
  targetUnit : String
  deriving DecidableEq, Repr

def CompileEdge.render (edge : CompileEdge) : String :=
  edge.sourceUnit ++ " -> " ++ edge.targetUnit

/-- The documents of a design with their display names. -/
structure CompileOrder where
  graph : Graph DocumentId String CompileEdge := {}

namespace CompileOrder

/-- The edge between documents that stands for a dependency between units. -/
def ofEdge? (dependency : DependencyGraph) (edge : Edge EdgeKind) : Option (Edge CompileEdge) := do
  let (sourceKey, source) ← dependency.vertex? edge.source
  let (targetKey, target) ← dependency.vertex? edge.target
  let sourceUnit ← source.unit?
  let targetUnit ← target.unit?
  return ⟨sourceUnit.document.index, targetUnit.document.index, ⟨sourceKey, targetKey⟩⟩

/-- Add an edge unless there is one between the two documents. -/
def addFirst (graph : Graph DocumentId String CompileEdge) (edge : Edge CompileEdge) :
    Graph DocumentId String CompileEdge :=
  if graph.hasEdge edge.source edge.target then graph else (graph.addEdge edge).1

def ofDependency (store : Store) (dependency : DependencyGraph) : CompileOrder where
  graph := (dependency.edges.filterMap (ofEdge? dependency)).foldl addFirst
    { vertices := store.numberedDocuments.map fun (id, document) =>
        (id, document.displayName id.index) }

def vertexOf? (order : CompileOrder) (document : DocumentId) : Option Nat :=
  order.graph.vertexId? document

/-- The first document with that display name. -/
def find? (order : CompileOrder) (name : String) : Option Nat :=
  order.graph.vertices.findIdx? (·.2 = name)

def dependsOn (order : CompileOrder) (source target : String) : Bool :=
  match order.find? source, order.find? target with
  | some source, some target => order.graph.hasEdge source target
  | _, _ => false

/-- The documents that a document directly depends on. -/
def dependencies (order : CompileOrder) (document : DocumentId) : List DocumentId :=
  match order.vertexOf? document with
  | some id => (order.graph.successors id).filterMap order.graph.keyOf?
  | none => []

/-- The groups of documents that depend on each other. -/
def cycles (order : CompileOrder) : List (List DocumentId) :=
  order.graph.cycles.map (·.filterMap order.graph.keyOf?)

/-- How far the compile order has come. Documents that are ready stand in the order they were
added. -/
structure Progress where
  /-- For each document the number of its dependencies that are still to be counted off. -/
  pending : List Int
  ready : List Nat
  listed : List Nat := []
  /-- The dependents of the document listed last that still have to count it off. -/
  dependents : List Nat := []

namespace Progress

variable {κ ν ε : Type}

def start (graph : Graph κ ν ε) : Progress where
  pending := graph.vertexIds.map fun id => (graph.outDegree id : Int)
  ready := graph.vertexIds.filter fun id => graph.outDegree id = 0

/-- Put a document among the others that are ready. -/
def enqueue (ready : List Nat) (id : Nat) : List Nat :=
  ready.takeWhile (· < id) ++ id :: ready.dropWhile (· < id)

/-- A dependent counts off one dependency, and is ready after the last one. -/
def release (progress : Progress) (id : Nat) : Progress :=
  let pending := progress.pending.modify id (· - 1)
  { progress with
    pending
    ready := if pending[id]? = some 0 then enqueue progress.ready id else progress.ready }

/-- Let the next dependent count off the document listed last, or else list the first document
that is ready. -/
def step? (graph : Graph κ ν ε) (progress : Progress) : Option Progress :=
  match progress.dependents, progress.ready with
  | id :: dependents, _ => some ({ progress with dependents }.release id)
  | [], id :: ready =>
    some { progress with
      ready
      listed := progress.listed ++ [id]
      dependents := graph.predecessors id }
  | [], [] => none

theorem step?_cases {graph : Graph κ ν ε} {progress next : Progress}
    (h : progress.step? graph = some next) :
    (∃ id dependents, progress.dependents = id :: dependents ∧
      next = { progress with dependents }.release id) ∨
    ∃ id ready, progress.dependents = [] ∧ progress.ready = id :: ready ∧
      next = { progress with
        ready
        listed := progress.listed ++ [id]
        dependents := graph.predecessors id } := by
  unfold step? at h
  split at h <;> cases h
  · exact Or.inl ⟨_, _, ‹_›, rfl⟩
  · exact Or.inr ⟨_, _, ‹_›, ‹_›, rfl⟩

/-- The sum of the counters that are above zero. -/
def outstanding : List Int → Nat
  | [] => 0
  | count :: rest => count.toNat + outstanding rest

theorem outstanding_modify (pending : List Int) (id : Nat) :
    outstanding (pending.modify id (· - 1)) +
      (if (pending.modify id (· - 1))[id]? = some 0 then 1 else 0) ≤ outstanding pending := by
  induction pending generalizing id with
  | nil => simp [outstanding]
  | cons count rest ih =>
    cases id with
    | zero =>
      simp only [List.modify_zero_cons, outstanding, List.getElem?_cons_zero, Option.some.injEq]
      split <;> omega
    | succ id =>
      rw [List.modify_succ_cons, List.getElem?_cons_succ, outstanding, outstanding, Nat.add_assoc]
      exact Nat.add_le_add_left (ih id) _

theorem length_enqueue (ready : List Nat) (id : Nat) :
    (enqueue ready id).length = ready.length + 1 := by
  have := congrArg List.length (List.takeWhile_append_dropWhile (p := (· < id)) (l := ready))
  simp only [enqueue, List.length_append, List.length_cons] at this ⊢
  omega

/-- The work that is left after a release is not more than before. -/
theorem work_release (progress : Progress) (id : Nat) :
    outstanding (progress.release id).pending + (progress.release id).ready.length ≤
      outstanding progress.pending + progress.ready.length := by
  have := outstanding_modify progress.pending id
  simp only [release]
  split <;> simp_all only [length_enqueue, if_true, if_false] <;> omega

/-- A step leaves less work, or as much work and fewer dependents. -/
theorem lex_step {graph : Graph κ ν ε} {progress next : Progress}
    (h : progress.step? graph = some next) :
    Prod.Lex (· < ·) (· < ·)
      (outstanding next.pending + next.ready.length, next.dependents.length)
      (outstanding progress.pending + progress.ready.length, progress.dependents.length) := by
  rcases step?_cases h with ⟨id, dependents, hd, rfl⟩ | ⟨id, ready, _, hr, rfl⟩
  · have hl : ({ progress with dependents }.release id).dependents.length <
        progress.dependents.length := by simp [release, hd]
    rcases Nat.lt_or_eq_of_le (work_release { progress with dependents } id) with hw | hw
    · exact Prod.Lex.left _ _ hw
    · rw [hw]
      exact Prod.Lex.right _ hl
  · exact Prod.Lex.left _ _ (by simp [hr])

/-- Go on until no document is ready. -/
def run (graph : Graph κ ν ε) (progress : Progress) : Progress :=
  match _ : progress.step? graph with
  | some next => run graph next
  | none => progress
termination_by (outstanding progress.pending + progress.ready.length, progress.dependents.length)
decreasing_by
  exact lex_step ‹_›

end Progress

/-- All documents, each one after those it depends on. -/
def order (order : CompileOrder) : Except Diagnostic (List DocumentId) :=
  let progress := (Progress.start order.graph).run order.graph
  let listed := progress.listed.filterMap order.graph.keyOf?
  if listed.length = order.graph.numVertices then .ok listed
  else
    let stuck := order.graph.vertexIds.filter fun id => progress.pending[id]?.any (0 < ·)
    .error (.error .design
      ("No compile order exists, these documents depend on each other: " ++
        String.intercalate ", " (stuck.filterMap order.graph.label?))
      .circularCompileDependency)

/-- One diagnostic for each group of documents that depend on each other. -/
def cycleDiagnostics (order : CompileOrder) (store : Store) : List Diagnostic :=
  order.cycles.filterMap fun cycle =>
    match cycle with
    | [] => none
    | first :: rest =>
      let names := cycle.map fun id => (store.documentLocation id).name
      let diagnostic := Diagnostic.error (store.documentLocation first)
        ("Circular compile dependency between " ++ String.intercalate ", " names)
        .circularCompileDependency
      some (rest.foldl
        (fun diagnostic id => diagnostic.addRelated (store.documentLocation id) "Part of the cycle")
        diagnostic)

def render (order : CompileOrder) : String :=
  Graph.render (fun _ name => name) CompileEdge.render order.graph

end CompileOrder

end Vhdl
