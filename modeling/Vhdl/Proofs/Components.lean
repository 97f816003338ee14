import Mathlib.Data.List.Sort
import Mathlib.Data.Setoid.Partition
import Mathlib.Order.WellFoundedSet
import Vhdl.Proofs.Edges
import Vhdl.Proofs.Scheduling

/-! # Components of a graph

Two vertices are in one component if each of them reaches the other. The cycles of a graph are its
components with at least two vertices. A graph without loops has a component of that size as soon as
some vertex leads back to itself.
-/

namespace Vhdl

/-- Among finitely many items of which each leads to another one, some item leads to itself. -/
theorem exists_transGen_self {α : Type} {r : α → α → Prop} {P : α → Prop} (hf : {x | P x}.Finite)
    (hs : ∀ x, P x → ∃ y, P y ∧ Relation.TransGen r x y) {x : α} (hx : P x) :
    ∃ y, P y ∧ Relation.TransGen r y y := by
  by_contra hn
  have := hf.to_subtype
  have : Std.Irrefl fun a b : {x | P x} => Relation.TransGen r b.1 a.1 :=
    ⟨fun a ha => hn ⟨a.1, a.2, ha⟩⟩
  have : IsTrans _ fun a b : {x | P x} => Relation.TransGen r b.1 a.1 :=
    ⟨fun _ _ _ hab hbc => hbc.trans hab⟩
  have hwf := Finite.wellFounded_of_trans_of_irrefl fun a b : {x | P x} =>
    Relation.TransGen r b.1 a.1
  obtain ⟨last, _, hl⟩ := hwf.has_min Set.univ ⟨⟨x, hx⟩, trivial⟩
  obtain ⟨y, hy, hp⟩ := hs last.1 last.2
  exact hl ⟨y, hy⟩ trivial hp

theorem two_le_length_of_ne {α : Type} {xs : List α} {a b : α} (ha : a ∈ xs) (hb : b ∈ xs)
    (hne : a ≠ b) : 2 ≤ xs.length := by
  rcases xs with _ | ⟨x, _ | ⟨y, rest⟩⟩
  · simp at ha
  · simp only [List.mem_singleton] at ha hb
    exact absurd (ha.trans hb.symm) hne
  · simp

theorem exists_mem_ne {xs : List Nat} (hs : xs.Pairwise (· < ·)) (hl : 2 ≤ xs.length) (a : Nat) :
    ∃ b ∈ xs, b ≠ a := by
  rcases xs with _ | ⟨x, _ | ⟨y, rest⟩⟩
  · simp at hl
  · simp at hl
  · have hlt : x < y := List.rel_of_pairwise_cons hs List.mem_cons_self
    by_cases hx : x = a
    · exact ⟨y, by simp, by omega⟩
    · exact ⟨x, by simp, hx⟩

namespace Graph

variable {κ ν ε : Type} {graph : Graph κ ν ε} {a b : Nat}

def Step (graph : Graph κ ν ε) (a b : Nat) : Prop :=
  ∃ edge ∈ graph.edges, edge.source = a ∧ edge.target = b

def HasCycle (graph : Graph κ ν ε) : Prop :=
  ∃ vertex, Relation.TransGen graph.Step vertex vertex

/-- Edges lead from the one vertex to the other, if they are not the same. -/
def Reaches (graph : Graph κ ν ε) : Nat → Nat → Prop :=
  Relation.ReflTransGen graph.Step

/-- The vertices are in one component: each of them reaches the other. A number that is no vertex is
alone. -/
def components (graph : Graph κ ν ε) : Setoid Nat where
  r a b := graph.Reaches a b ∧ graph.Reaches b a
  iseqv := ⟨fun _ => ⟨.refl, .refl⟩, And.symm, fun h h' => ⟨h.1.trans h'.1, h'.2.trans h.2⟩⟩

theorem components_iff : graph.components a b ↔ graph.Reaches a b ∧ graph.Reaches b a :=
  Iff.rfl

/-- The graphs that can be made by adding vertices and edges, where an edge is added between
vertices that are there. -/
inductive Made [DecidableEq κ] [DecidableEq ε] : Graph κ ν ε → Prop where
  | empty : Made empty
  | addVertex {graph : Graph κ ν ε} (key : κ) (label : ν) :
      Made graph → Made (graph.addVertex key label).1
  | addEdge {graph : Graph κ ν ε} (edge : Edge ε) : edge.source < graph.numVertices →
      edge.target < graph.numVertices → Made graph → Made (graph.addEdge edge).1

def Closed (graph : Graph κ ν ε) : Prop :=
  ∀ edge ∈ graph.edges, edge.source < graph.numVertices ∧ edge.target < graph.numVertices

theorem Made.closed [DecidableEq κ] [DecidableEq ε] (h : graph.Made) : graph.Closed := by
  induction h with
  | empty =>
    intro edge he
    simp [Graph.empty] at he
  | @addVertex graph key label _ ih =>
    unfold Graph.addVertex
    split
    · exact ih
    · intro edge he
      have := ih edge he
      simp only [numVertices, List.length_append, List.length_singleton] at this ⊢
      omega
  | @addEdge graph edge hs ht _ ih =>
    intro other ho
    rw [numVertices, vertices_addEdge]
    rcases mem_edges_addEdge.mp ho with ho | ⟨rfl, _⟩
    · exact ih other ho
    · exact ⟨hs, ht⟩

theorem mem_successors_eq_step (graph : Graph κ ν ε) :
    (fun a b => b ∈ graph.successors a) = graph.Step := by
  ext a b
  exact mem_successors_iff

theorem Closed.mem_reachable_iff (h : graph.Closed) (ha : a < graph.numVertices) :
    b ∈ graph.reachable a ↔ graph.Reaches a b := by
  have hnext : ∀ x ∈ graph.vertexIds, ∀ y ∈ graph.successors x, y ∈ graph.vertexIds := by
    intro x _ y hy
    obtain ⟨edge, he, _, rfl⟩ := mem_successors_iff.mp hy
    exact List.mem_range.mpr (h edge he).2
  rw [reachable, mem_reach_iff hnext, mem_successors_eq_step]
  simp [vertexIds, ha, Reaches]

theorem exists_step (h : graph.components a b) (hne : a ≠ b) : ∃ c, graph.Step a c := by
  rcases h.1.cases_head with he | ⟨c, hs, _⟩
  · exact absurd he hne
  · exact ⟨c, hs⟩

theorem Closed.lt_of_components (h : graph.Closed) (hc : graph.components a b) (hne : a ≠ b) :
    a < graph.numVertices := by
  obtain ⟨_, edge, he, rfl, _⟩ := exists_step hc hne
  exact (h edge he).1

section Classes

variable {count : Nat} {reaches : Nat → Nat → Bool} {members : List Nat}

def classOf (count : Nat) (reaches : Nat → Nat → Bool) (id : Nat) : List Nat :=
  (List.range count).filter fun other => reaches id other && reaches other id

def class? (count : Nat) (reaches : Nat → Nat → Bool) (id : Nat) : Option (List Nat) :=
  let members := classOf count reaches id
  if 1 < members.length && members.head? = some id then some members else none

theorem classes_eq : classes count reaches = (List.range count).filterMap (class? count reaches) :=
  rfl

theorem class?_eq_some_iff {id : Nat} : class? count reaches id = some members ↔
    members = classOf count reaches id ∧ 2 ≤ members.length ∧ members.head? = some id := by
  simp only [class?, Option.ite_none_right_eq_some, Bool.and_eq_true, decide_eq_true_eq]
  constructor
  · rintro ⟨hc, he⟩
    obtain rfl := Option.some.inj he
    exact ⟨rfl, hc⟩
  · rintro ⟨rfl, hc⟩
    exact ⟨hc, rfl⟩

theorem pairwise_classOf (id : Nat) : (classOf count reaches id).Pairwise (· < ·) :=
  List.pairwise_lt_range.filter _

theorem pairwise_classes : (classes count reaches).Pairwise fun xs ys =>
    ∃ x ∈ xs.head?, ∃ y ∈ ys.head?, x < y := by
  rw [classes_eq]
  refine List.pairwise_lt_range.filterMap _ ?_
  intro x y hlt xs hx ys hy
  obtain ⟨_, _, hx⟩ := class?_eq_some_iff.mp hx
  obtain ⟨_, _, hy⟩ := class?_eq_some_iff.mp hy
  exact ⟨x, hx, y, hy, hlt⟩

/-- Where both directions together decide an equivalence relation, the classes are those of the
relation that have at least two members. -/
theorem mem_classes_iff_setoid {r : Setoid Nat}
    (hr : ∀ a < count, ∀ b < count, (reaches a b && reaches b a) = true ↔ r a b)
    (hlt : ∀ a b, r a b → a ≠ b → a < count) :
    members ∈ classes count reaches ↔ members.Pairwise (· < ·) ∧ 2 ≤ members.length ∧
      {id | id ∈ members} ∈ r.classes := by
  have hclass : ∀ id < count, ∀ other, other ∈ classOf count reaches id ↔ r other id := by
    intro id hid other
    rw [classOf, List.mem_filter, List.mem_range]
    constructor
    · rintro ⟨ho, he⟩
      exact r.symm ((hr id hid other ho).mp he)
    · intro ho
      have hother : other < count := by
        by_cases he : other = id
        · omega
        · exact hlt other id ho he
      exact ⟨hother, (hr id hid other hother).mpr (r.symm ho)⟩
  simp only [classes_eq, List.mem_filterMap, List.mem_range, class?_eq_some_iff]
  constructor
  · rintro ⟨id, hid, rfl, hl, _⟩
    refine ⟨pairwise_classOf id, hl, id, ?_⟩
    ext other
    exact hclass id hid other
  · rintro ⟨hs, hl, y, hy⟩
    have hmem : ∀ x, x ∈ members ↔ r x y := fun x => Set.ext_iff.mp hy x
    -- The least member finds its class, which has the same members in the same order.
    obtain ⟨first, hf⟩ : ∃ first, members.head? = some first := by
      rcases members with _ | ⟨first, rest⟩
      · simp at hl
      · exact ⟨first, rfl⟩
    have hfirst : r first y := (hmem first).mp (List.mem_of_head? hf)
    obtain ⟨other, ho, hne⟩ := exists_mem_ne hs hl first
    have hid : first < count :=
      hlt first other (r.trans hfirst (r.symm ((hmem other).mp ho))) hne.symm
    refine ⟨first, hid, hs.eq_of_mem_iff (pairwise_classOf first) fun x => ?_, hl, hf⟩
    rw [hmem, hclass first hid]
    exact ⟨fun hx => r.trans hx (r.symm hfirst), fun hx => r.trans hx hfirst⟩

end Classes

/-- The cycles are exact: they are the components with at least two vertices, each one listed once
and in increasing order, in the order of their first vertices. -/
structure CyclesExact (graph : Graph κ ν ε) : Prop where
  mem_iff : ∀ members, members ∈ graph.cycles ↔ members.Pairwise (· < ·) ∧ 2 ≤ members.length ∧
    {id | id ∈ members} ∈ graph.components.classes
  nodup : graph.cycles.Nodup
  ordered : graph.cycles.Pairwise fun xs ys => ∃ x ∈ xs.head?, ∃ y ∈ ys.head?, x < y

theorem Closed.cyclesExact (h : graph.Closed) : graph.CyclesExact := by
  have hreach : ∀ a < graph.numVertices, ∀ b,
      ((((graph.vertexIds.map graph.reachable).toArray[a]?).getD []).contains b) = true ↔
        graph.Reaches a b := by
    intro a ha b
    rw [← h.mem_reachable_iff ha]
    simp [vertexIds, ha]
  have hordered : graph.cycles.Pairwise fun xs ys => ∃ x ∈ xs.head?, ∃ y ∈ ys.head?, x < y :=
    pairwise_classes
  refine ⟨fun members => mem_classes_iff_setoid ?_ ?_, hordered.imp ?_, hordered⟩
  · intro a ha b hb
    rw [Bool.and_eq_true, hreach a ha, hreach b hb]
    exact components_iff.symm
  · intro a b hc hne
    exact h.lt_of_components hc hne
  · rintro xs _ ⟨x, hx, y, hy, hlt⟩ rfl
    cases hx.symm.trans hy
    exact Nat.lt_irrefl x hlt

theorem cycles_congr {κ' ν' : Type} {other : Graph κ' ν' ε}
    (hn : graph.numVertices = other.numVertices) (he : graph.edges = other.edges) :
    graph.cycles = other.cycles := by
  have hs : graph.successors = other.successors := by
    funext id
    rw [successors, successors, outgoing, outgoing, he]
  have hr : graph.reachable = other.reachable := by
    funext id
    rw [reachable, reachable, vertexIds, vertexIds, hn, hs]
  simp only [cycles, vertexIds, hn, hr]

namespace CyclesExact

variable {members : List Nat}

theorem mem_iff_components (h : graph.CyclesExact) (hm : members ∈ graph.cycles)
    (ha : a ∈ members) : b ∈ members ↔ graph.components a b := by
  obtain ⟨_, _, y, hy⟩ := (h.mem_iff members).mp hm
  have hmem : ∀ x, x ∈ members ↔ graph.components x y := fun x => Set.ext_iff.mp hy x
  have hay := (hmem a).mp ha
  rw [hmem]
  exact ⟨fun hb => graph.components.trans hay (graph.components.symm hb),
    fun hb => graph.components.trans (graph.components.symm hb) hay⟩

theorem exists_ne (h : graph.CyclesExact) (hm : members ∈ graph.cycles) (a : Nat) :
    ∃ b ∈ members, b ≠ a := by
  obtain ⟨hs, hl, _⟩ := (h.mem_iff members).mp hm
  exact exists_mem_ne hs hl a

theorem disjoint (h : graph.CyclesExact) : graph.cycles.Pairwise List.Disjoint := by
  refine h.nodup.imp_of_mem fun {xs ys} hx hy hne a hax hay => hne ?_
  obtain ⟨hsx, _⟩ := (h.mem_iff xs).mp hx
  obtain ⟨hsy, _⟩ := (h.mem_iff ys).mp hy
  refine hsx.eq_of_mem_iff hsy fun b => ?_
  rw [h.mem_iff_components hx hax, h.mem_iff_components hy hay]

theorem nodup_flatten (h : graph.CyclesExact) : graph.cycles.flatten.Nodup := by
  refine List.nodup_flatten.mpr ⟨fun members hm => ?_, h.disjoint⟩
  exact ((h.mem_iff members).mp hm).1.imp Nat.ne_of_lt

end CyclesExact

theorem Closed.exists_cycle (h : graph.Closed) (hc : graph.components a b) (hne : a ≠ b) :
    ∃ members ∈ graph.cycles, a ∈ members ∧ b ∈ members := by
  classical
  let members := (List.range graph.numVertices).filter fun x => graph.components x a
  have hmem : ∀ x, x ∈ members ↔ graph.components x a := by
    intro x
    have hx : graph.components x a → x < graph.numVertices := by
      intro hx
      by_cases he : x = a
      · exact he ▸ h.lt_of_components hc hne
      · exact h.lt_of_components hx he
    simpa [members] using hx
  have ha : a ∈ members := (hmem a).mpr (graph.components.refl a)
  have hb : b ∈ members := (hmem b).mpr (graph.components.symm hc)
  refine ⟨members, (h.cyclesExact.mem_iff members).mpr
    ⟨List.pairwise_lt_range.filter _, two_le_length_of_ne ha hb hne, a, ?_⟩, ha, hb⟩
  ext x
  exact hmem x

/-- Without loops the vertices of cycles are those that lead back to themselves. -/
theorem Closed.mem_flatten_cycles_iff (h : graph.Closed) (hl : ∀ a, ¬ graph.Step a a) :
    a ∈ graph.cycles.flatten ↔ Relation.TransGen graph.Step a a := by
  rw [List.mem_flatten]
  constructor
  · rintro ⟨members, hm, ha⟩
    obtain ⟨b, hb, hne⟩ := h.cyclesExact.exists_ne hm a
    have hc := (h.cyclesExact.mem_iff_components hm ha).mp hb
    obtain he | hab := Relation.reflTransGen_iff_eq_or_transGen.mp hc.1
    · exact absurd he hne
    · exact hab.trans_left hc.2
  · intro ha
    obtain ⟨b, hs, hb⟩ := Relation.TransGen.head'_iff.mp ha
    have hne : a ≠ b := by
      rintro rfl
      exact hl a hs
    obtain ⟨members, hm, ha, _⟩ := h.exists_cycle ⟨.single hs, hb⟩ hne
    exact ⟨members, hm, ha⟩

theorem Closed.cycles_ne_nil_iff (h : graph.Closed) (hl : ∀ a, ¬ graph.Step a a) :
    graph.cycles ≠ [] ↔ graph.HasCycle := by
  constructor
  · intro hn
    obtain ⟨members, hm⟩ := List.exists_mem_of_ne_nil _ hn
    obtain ⟨a, ha, _⟩ := h.cyclesExact.exists_ne hm 0
    exact ⟨a, (h.mem_flatten_cycles_iff hl).mp (List.mem_flatten_of_mem hm ha)⟩
  · rintro ⟨a, ha⟩ hn
    have hm := (h.mem_flatten_cycles_iff hl).mpr ha
    simp [hn] at hm

end Graph

end Vhdl
