import Vhdl.Graph

/-! # Reachability and cycles

A search from some starting points goes on to whatever it has not seen yet. Vertices that reach each
other form a cycle if there are at least two of them.
-/

namespace Vhdl

/-- What can be reached from `todo` by steps of `next` within `unseen`, in depth-first order. -/
def reach {α : Type} [DecidableEq α] (next : α → List α) (unseen : List α) : List α → List α
  | [] => []
  | x :: todo =>
    if x ∈ unseen then x :: reach next (unseen.erase x) (next x ++ todo)
    else reach next unseen todo
termination_by todo => (unseen.length, todo.length)
decreasing_by
  · rename_i seen
    have shorter := List.length_erase_of_mem seen
    have nonempty := List.length_pos_of_mem seen
    exact Prod.Lex.left _ _ (by omega)
  · exact Prod.Lex.right _ (by simp)

namespace Graph

variable {κ ν ε : Type} [DecidableEq κ] [DecidableEq ε]

def vertexIds (graph : Graph κ ν ε) : List Nat :=
  List.range graph.numVertices

/-- The vertices that a vertex reaches, itself among them. -/
def reachable (graph : Graph κ ν ε) (id : Nat) : List Nat :=
  reach graph.successors graph.vertexIds [id]

/-- The classes of at least two numbers below `count` that reach each other, each sorted, in the
order of their least members. -/
def classes (count : Nat) (reaches : Nat → Nat → Bool) : List (List Nat) :=
  (List.range count).filterMap fun id =>
    let members := (List.range count).filter fun other => reaches id other && reaches other id
    if 1 < members.length && members.head? = some id then some members else none

def cycles (graph : Graph κ ν ε) : List (List Nat) :=
  let table := (graph.vertexIds.map graph.reachable).toArray
  classes graph.numVertices fun source target => ((table[source]?).getD []).contains target

end Graph

end Vhdl
