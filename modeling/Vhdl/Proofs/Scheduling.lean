import Mathlib.Data.List.Nodup
import Mathlib.Data.List.Perm.Subperm
import Mathlib.Logic.Equiv.Defs
import Mathlib.Logic.Relation
import Vhdl.CompileOrder

/-! # Scheduling

Each counter is the number of dependencies that are not listed yet, plus the number of times it is
still to be decreased for the document listed last. A document is therefore ready when its counter
is zero. If none is ready although some are not listed, then nothing could come first among those.
-/

namespace Vhdl

section Arrangement

variable {α β : Type}

/-- An item that is not listed before and requires only what is listed before. -/
structure Eligible (items : α → Prop) (requires : α → α → Prop) (before : List α) (x : α) :
    Prop where
  item : items x
  fresh : x ∉ before
  met : ∀ y, requires x y → y ∈ before

theorem eligible_map {items : α → Prop} {requires : α → α → Prop} (e : β ≃ α) {before : List β}
    {x : β} : Eligible items requires (before.map e) (e x) ↔
    Eligible (fun x => items (e x)) (fun x y => requires (e x) (e y)) before x := by
  constructor
  · rintro ⟨hi, hf, hm⟩
    exact ⟨hi, by simpa using hf, fun y hy => by simpa using hm (e y) hy⟩
  · rintro ⟨hi, hf, hm⟩
    refine ⟨hi, by simpa using hf, fun y hy => ?_⟩
    obtain ⟨y, rfl⟩ := e.surjective y
    simpa using hm y hy

variable [DecidableEq α]

/-- All items, each one once and after those it requires. -/
structure Arrangement (items : α → Prop) (requires : α → α → Prop) (order : List α) : Prop where
  nodup : order.Nodup
  mem_iff : ∀ x, x ∈ order ↔ items x
  before : ∀ x y, requires x y → order.idxOf y < order.idxOf x

variable {items : α → Prop} {requires : α → α → Prop} {order listed : List α}

/-- If some items are not listed, then one of them is eligible, provided that there is an
arrangement. -/
theorem Arrangement.exists_eligible (h : Arrangement items requires order) {x : α} (hx : items x)
    (hl : x ∉ listed) : ∃ y, Eligible items requires listed y := by
  obtain ⟨y, hy⟩ : ∃ y, order.find? (· ∉ listed) = some y :=
    Option.isSome_iff_exists.mp (List.find?_isSome.mpr ⟨x, (h.mem_iff x).mpr hx, by simpa using hl⟩)
  obtain ⟨hf, before, after, rfl, hb⟩ := List.find?_eq_some_iff_append.mp hy
  refine ⟨y, (h.mem_iff y).mp (by simp), by simpa using hf, fun z hz => ?_⟩
  have hn : y ∉ before := fun hm => (List.nodup_append.mp h.nodup).2.2 y hm y (by simp) rfl
  have hlt := h.before y z hz
  rw [List.idxOf_append_of_notMem hn, List.idxOf_cons_self, Nat.add_zero] at hlt
  have hm : z ∈ before := by
    by_contra hm
    rw [List.idxOf_append_of_notMem hm] at hlt
    omega
  simpa using hb z hm

/-- A list of items of which each was eligible after those before it respects all requirements. -/
theorem idxOf_lt_of_eligible {x y : α} (hx : x ∈ order) (hr : requires x y)
    (h : ∀ before x after, order = before ++ x :: after → Eligible items requires before x) :
    order.idxOf y < order.idxOf x := by
  obtain ⟨before, after, rfl⟩ := List.append_of_mem hx
  have he := h before x after rfl
  rw [List.idxOf_append_of_notMem he.fresh, List.idxOf_cons_self, Nat.add_zero,
    List.idxOf_append_of_mem (he.met y hr)]
  exact List.idxOf_lt_length_iff.mpr (he.met y hr)

variable [DecidableEq β] (e : β ≃ α)

theorem idxOf_map (xs : List β) (x : β) : (xs.map e).idxOf (e x) = xs.idxOf x := by
  induction xs with
  | nil => rfl
  | cons y xs ih =>
    have hb : (e y == e x) = (y == x) := by rw [Bool.eq_iff_iff]; simp
    rw [List.map_cons, List.idxOf_cons, List.idxOf_cons, ih, hb]

theorem arrangement_map {order : List β} : Arrangement items requires (order.map e) ↔
    Arrangement (fun x => items (e x)) (fun x y => requires (e x) (e y)) order := by
  constructor
  · rintro ⟨hn, hm, hb⟩
    refine ⟨hn.of_map _, fun x => by simpa using hm (e x), fun x y hr => ?_⟩
    simpa only [idxOf_map] using hb _ _ hr
  · rintro ⟨hn, hm, hb⟩
    refine ⟨hn.map e.injective, fun x => ?_, fun x y hr => ?_⟩
    · obtain ⟨x, rfl⟩ := e.surjective x
      simpa using hm x
    · obtain ⟨x, rfl⟩ := e.surjective x
      obtain ⟨y, rfl⟩ := e.surjective y
      simpa only [idxOf_map] using hb _ _ hr

end Arrangement

namespace Graph

variable {κ ν ε : Type} {graph : Graph κ ν ε} {source target : Nat}

theorem mem_successors_iff : target ∈ graph.successors source ↔
    ∃ edge ∈ graph.edges, edge.source = source ∧ edge.target = target := by
  simp only [successors, outgoing, List.mem_map, List.mem_filter, decide_eq_true_eq, and_assoc]

end Graph

namespace CompileOrder.Progress

variable {κ ν ε : Type} {graph : Graph κ ν ε} {progress next : Progress}

theorem enqueue_cons (first id : Nat) (ready : List Nat) : enqueue (first :: ready) id =
    if first < id then first :: enqueue ready id else id :: first :: ready := by
  by_cases h : first < id <;> simp [enqueue, h]

theorem mem_enqueue {ready : List Nat} {id other : Nat} :
    other ∈ enqueue ready id ↔ other = id ∨ other ∈ ready := by
  induction ready with
  | nil => simp [enqueue]
  | cons first ready ih =>
    rw [enqueue_cons]
    split
    · rw [List.mem_cons, ih, List.mem_cons]
      tauto
    · rw [List.mem_cons]

theorem sorted_enqueue {ready : List Nat} {id : Nat} (h : ready.Pairwise (· < ·))
    (hn : id ∉ ready) : (enqueue ready id).Pairwise (· < ·) := by
  induction ready with
  | nil => simp [enqueue]
  | cons first ready ih =>
    obtain ⟨hf, hr⟩ := List.pairwise_cons.mp h
    obtain ⟨hne, hn⟩ : id ≠ first ∧ id ∉ ready := by simpa using hn
    rw [enqueue_cons]
    split
    · next hlt =>
      refine List.pairwise_cons.mpr ⟨fun other hm => ?_, ih hr hn⟩
      rcases mem_enqueue.mp hm with rfl | hm
      · exact hlt
      · exact hf other hm
    · next hge =>
      have hlt : id < first := by omega
      refine List.pairwise_cons.mpr ⟨fun other hm => ?_, h⟩
      rcases List.mem_cons.mp hm with rfl | hm
      · exact hlt
      · exact Nat.lt_trans hlt (hf other hm)

def missing (graph : Graph κ ν ε) (listed : List Nat) (id : Nat) : Nat :=
  graph.edges.countP fun edge => edge.source = id ∧ edge.target ∉ listed

theorem missing_eq_zero_iff {listed : List Nat} {id : Nat} : missing graph listed id = 0 ↔
    ∀ target ∈ graph.successors id, target ∈ listed := by
  simp only [missing, List.countP_eq_zero, Graph.mem_successors_iff, decide_eq_true_eq]
  constructor
  · rintro h _ ⟨edge, hm, hs, rfl⟩
    by_contra hn
    exact h edge hm ⟨hs, hn⟩
  · rintro h edge hm ⟨hs, hn⟩
    exact hn (h _ ⟨edge, hm, hs, rfl⟩)

theorem missing_nil (graph : Graph κ ν ε) (id : Nat) : missing graph [] id = graph.outDegree id := by
  simp [missing, Graph.outDegree, Graph.outgoing, List.countP_eq_length_filter]

theorem missing_concat {listed : List Nat} {id : Nat} (h : id ∉ listed) (other : Nat) :
    missing graph listed other =
      missing graph (listed ++ [id]) other + (graph.predecessors id).count other := by
  unfold missing Graph.predecessors Graph.incoming
  induction graph.edges with
  | nil => rfl
  | cons edge rest ih =>
    rw [List.countP_cons, List.countP_cons, ih, List.filter_cons]
    by_cases ht : edge.target = id <;> by_cases hs : edge.source = other <;> grind

def CanFollow (graph : Graph κ ν ε) : List Nat → Nat → Prop :=
  Eligible (· < graph.numVertices) fun id target => target ∈ graph.successors id

/-- What holds at every moment while a compile order is made. -/
structure Valid (graph : Graph κ ν ε) (progress : Progress) : Prop where
  length : progress.pending.length = graph.numVertices
  counts : ∀ id < graph.numVertices, progress.pending[id]? =
    some ((missing graph progress.listed id + progress.dependents.count id : Nat) : Int)
  dependents : ∀ id ∈ progress.dependents, id < graph.numVertices
  sorted : progress.ready.Pairwise (· < ·)
  ready_iff : ∀ id, id ∈ progress.ready ↔
    id < graph.numVertices ∧ id ∉ progress.listed ∧ progress.pending[id]? = some 0
  listed_zero : ∀ id ∈ progress.listed,
    id < graph.numVertices ∧ progress.pending[id]? = some 0
  nodup : progress.listed.Nodup
  least : ∀ before id after, progress.listed = before ++ id :: after →
    CanFollow graph before id ∧ ∀ other, CanFollow graph before other → id ≤ other

theorem step?_eq_none_iff :
    progress.step? graph = none ↔ progress.dependents = [] ∧ progress.ready = [] := by
  unfold step?
  split <;> simp_all

theorem valid_start (graph : Graph κ ν ε) : Valid graph (start graph) := by
  have hp : ∀ id < graph.numVertices,
      (start graph).pending[id]? = some (graph.outDegree id : Int) := by
    intro id hlt
    simp [start, Graph.vertexIds, hlt]
  refine ⟨by simp [start, Graph.vertexIds], fun id hlt => ?_, by simp [start], ?_, fun id => ?_,
    by simp [start], by simp [start], by simp [start]⟩
  · rw [hp id hlt]
    simp [start, missing_nil]
  · exact List.pairwise_lt_range.filter _
  · by_cases hlt : id < graph.numVertices
    · rw [hp id hlt]
      simp [start, Graph.vertexIds, hlt]
    · simp [start, Graph.vertexIds, hlt]

namespace Valid

/-- While nothing is to be counted off, the documents that are ready are those that can follow. -/
theorem mem_ready_iff (h : Valid graph progress) (hd : progress.dependents = []) {id : Nat} :
    id ∈ progress.ready ↔ CanFollow graph progress.listed id := by
  rw [h.ready_iff]
  constructor
  · rintro ⟨hlt, hf, hz⟩
    rw [h.counts id hlt, hd] at hz
    refine ⟨hlt, hf, missing_eq_zero_iff.mp ?_⟩
    simpa using hz
  · rintro ⟨hlt, hf, hm⟩
    refine ⟨hlt, hf, ?_⟩
    rw [h.counts id hlt, hd, missing_eq_zero_iff.mpr hm]
    rfl

theorem list (h : Valid graph progress) (hd : progress.dependents = []) {id : Nat}
    {ready : List Nat} (hr : progress.ready = id :: ready)
    (hc : ∀ edge ∈ graph.edges, edge.source < graph.numVertices) :
    Valid graph { progress with
      ready
      listed := progress.listed ++ [id]
      dependents := graph.predecessors id } := by
  obtain ⟨hlt, hfresh, hzero⟩ := (h.ready_iff id).mp (hr ▸ List.mem_cons_self)
  obtain ⟨hleast, hsorted⟩ := List.pairwise_cons.mp (hr ▸ h.sorted)
  refine ⟨h.length, fun other ho => ?_, fun other hm => ?_, hsorted, fun other => ?_,
    fun other hm => ?_, ?_, fun before other after he => ?_⟩
  · rw [h.counts other ho, hd, missing_concat hfresh other]
    rfl
  · obtain ⟨edge, he, rfl⟩ := List.mem_map.mp hm
    exact hc edge (List.mem_of_mem_filter he)
  · have hn : other ∈ ready → other ≠ id := fun hm he => absurd (hleast other hm) (by omega)
    have hi := h.ready_iff other
    rw [hr, List.mem_cons] at hi
    simp only [List.mem_append, List.mem_singleton]
    tauto
  · rcases List.mem_append.mp hm with hm | hm
    · exact h.listed_zero other hm
    · obtain rfl := List.mem_singleton.mp hm
      exact ⟨hlt, hzero⟩
  · rw [← List.concat_eq_append]
    exact List.Nodup.concat hfresh h.nodup
  · rcases List.eq_nil_or_concat after with rfl | ⟨rest, last, rfl⟩
    · obtain ⟨rfl, he⟩ := List.append_inj' he rfl
      obtain rfl : id = other := by simpa using he
      refine ⟨(h.mem_ready_iff hd).mp (hr ▸ List.mem_cons_self), fun other ho => ?_⟩
      rcases List.mem_cons.mp (hr ▸ (h.mem_ready_iff hd).mpr ho) with rfl | hm
      · exact Nat.le_refl _
      · exact Nat.le_of_lt (hleast other hm)
    · refine h.least before other rest ?_
      rw [List.concat_eq_append, ← List.cons_append, ← List.append_assoc] at he
      exact (List.append_inj' he rfl).1

/-- A dependent has something to count off, so it is neither listed nor ready. -/
theorem release (h : Valid graph progress) {id : Nat} {rest : List Nat}
    (hd : progress.dependents = id :: rest) :
    Valid graph ({ progress with dependents := rest }.release id) := by
  have hlt : id < graph.numVertices := h.dependents id (hd ▸ List.mem_cons_self)
  have hc := h.counts id hlt
  rw [hd, List.count_cons_self] at hc
  have hpos : progress.pending[id]? ≠ some 0 := by
    rw [hc]
    simp only [ne_eq, Option.some.injEq]
    omega
  have hfresh : id ∉ progress.listed := fun hm => hpos (h.listed_zero id hm).2
  have hready : id ∉ progress.ready := fun hm => hpos ((h.ready_iff id).mp hm).2.2
  have hself : (progress.pending.modify id (· - 1))[id]? =
      some ((missing graph progress.listed id + rest.count id : Nat) : Int) := by
    rw [List.getElem?_modify_eq, hc]
    simp only [Option.map_eq_map, Option.map_some, Option.some.injEq]
    omega
  have hother : ∀ other ≠ id,
      (progress.pending.modify id (· - 1))[other]? = progress.pending[other]? :=
    fun other hne => List.getElem?_modify_ne _ _ hne.symm
  refine ⟨?_, fun other ho => ?_, fun other hm => ?_, ?_, fun other => ?_, fun other hm => ?_,
    h.nodup, h.least⟩
  · simpa [Progress.release] using h.length
  · by_cases hne : other = id
    · subst hne
      exact hself
    · refine (hother other hne).trans ((h.counts other ho).trans ?_)
      rw [hd, List.count_cons_of_ne (Ne.symm hne)]
      rfl
  · exact h.dependents other (hd ▸ List.mem_cons_of_mem _ hm)
  · simp only [Progress.release]
    split
    · exact sorted_enqueue h.sorted hready
    · exact h.sorted
  · simp only [Progress.release]
    by_cases hne : other = id
    · subst hne
      split
      · next hz => exact iff_of_true (mem_enqueue.mpr (.inl rfl)) ⟨hlt, hfresh, hz⟩
      · next hz => exact iff_of_false hready fun hr => hz hr.2.2
    · rw [hother other hne, ← h.ready_iff]
      split
      · simp [mem_enqueue, hne]
      · rfl
  · have hne : other ≠ id := fun he => hfresh (he ▸ hm)
    exact ⟨(h.listed_zero other hm).1, (hother other hne).trans (h.listed_zero other hm).2⟩

theorem step (h : Valid graph progress)
    (hc : ∀ edge ∈ graph.edges, edge.source < graph.numVertices)
    (hs : progress.step? graph = some next) : Valid graph next := by
  rcases step?_cases hs with ⟨id, rest, hd, rfl⟩ | ⟨id, ready, hd, hr, rfl⟩
  · exact h.release hd
  · exact h.list hd hr hc

theorem listed_subperm (h : Valid graph progress) : progress.listed.Subperm graph.vertexIds :=
  List.subperm_of_subset h.nodup fun id hm => List.mem_range.mpr (h.listed_zero id hm).1

theorem arrangement (h : Valid graph progress)
    (hc : ∀ edge ∈ graph.edges, edge.source < graph.numVertices)
    (hl : progress.listed.length = graph.numVertices) :
    Arrangement (· < graph.numVertices) (fun id target => target ∈ graph.successors id)
      progress.listed := by
  have hp : progress.listed.Perm graph.vertexIds :=
    h.listed_subperm.perm_of_length_le (by simp [Graph.vertexIds, hl])
  have hm : ∀ id, id ∈ progress.listed ↔ id < graph.numVertices := fun id =>
    hp.mem_iff.trans List.mem_range
  refine ⟨h.nodup, hm, fun id target ht => ?_⟩
  obtain ⟨edge, he, rfl, rfl⟩ := Graph.mem_successors_iff.mp ht
  exact idxOf_lt_of_eligible ((hm _).mpr (hc edge he)) ht
    fun before x after hx => (h.least before x after hx).1

theorem length_listed_of_forall_mem (h : Valid graph progress)
    (ha : ∀ id < graph.numVertices, id ∈ progress.listed) :
    progress.listed.length = graph.numVertices := by
  have hp : graph.vertexIds.Subperm progress.listed :=
    List.subperm_of_subset List.nodup_range fun id hm => ha id (List.mem_range.mp hm)
  have hle := hp.length_le
  have hge := h.listed_subperm.length_le
  simp only [Graph.vertexIds, List.length_range] at hle hge
  omega

theorem not_canFollow (h : Valid graph progress) (hs : progress.step? graph = none) (id : Nat) :
    ¬ CanFollow graph progress.listed id := by
  obtain ⟨hd, hr⟩ := step?_eq_none_iff.mp hs
  rw [← h.mem_ready_iff hd, hr]
  exact List.not_mem_nil

/-- The end comes when all are listed, provided that there is an arrangement. -/
theorem length_listed (h : Valid graph progress) (hs : progress.step? graph = none)
    {order : List Nat} (ha : Arrangement (· < graph.numVertices)
      (fun id target => target ∈ graph.successors id) order) :
    progress.listed.length = graph.numVertices := by
  refine h.length_listed_of_forall_mem fun id hlt => ?_
  by_contra hn
  obtain ⟨next, hnext⟩ := ha.exists_eligible hlt hn
  exact h.not_canFollow hs next hnext

theorem nonneg (h : Valid graph progress) {count : Int} (hm : count ∈ progress.pending) :
    0 ≤ count := by
  obtain ⟨id, hid⟩ := List.mem_iff_getElem?.mp hm
  have hlt : id < graph.numVertices := h.length ▸ (List.getElem?_eq_some_iff.mp hid).1
  rw [h.counts id hlt] at hid
  cases hid
  exact Int.natCast_nonneg _

end Valid

def Reached (graph : Graph κ ν ε) : Progress → Prop :=
  Relation.ReflTransGen (fun progress next => progress.step? graph = some next) (start graph)

theorem Reached.valid (h : Reached graph progress)
    (hc : ∀ edge ∈ graph.edges, edge.source < graph.numVertices) : Valid graph progress := by
  induction h with
  | refl => exact valid_start graph
  | tail _ hs ih => exact ih.step hc hs

theorem Reached.run (h : Reached graph progress) : Reached graph (progress.run graph) := by
  fun_induction Progress.run graph progress with
  | case1 progress next hs ih => exact ih (h.tail hs)
  | case2 => exact h

theorem step?_run (graph : Graph κ ν ε) (progress : Progress) :
    (progress.run graph).step? graph = none := by
  fun_induction Progress.run graph progress with
  | case1 _ _ _ ih => exact ih
  | case2 _ hs => exact hs

end CompileOrder.Progress

end Vhdl
