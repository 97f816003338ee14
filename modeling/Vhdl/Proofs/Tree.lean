import Vhdl.Proofs.TopLevel

/-! # The tree below a vertex

A path in a hierarchy goes on from a vertex to one of its children. The tree below a vertex has an
entry for every path that passes no vertex twice before its end, in depth-first order. A vertex that
is its own ancestor is listed but not expanded, so that the tree is finite and still has every
vertex that can be reached.
-/

namespace Vhdl

namespace Hierarchy

/-- A path downwards: for each step the place of the vertex among its siblings, the vertices before
the end, and the end. -/
structure Trail where
  path : List Nat
  ancestors : List Nat
  vertex : Nat
  deriving DecidableEq, Repr

namespace Trail

def start (id : Nat) : Trail := ⟨[], [], id⟩

def cons (id place : Nat) (trail : Trail) : Trail :=
  ⟨place :: trail.path, id :: trail.ancestors, trail.vertex⟩

def concat (trail : Trail) (place child : Nat) : Trail :=
  ⟨trail.path ++ [place], trail.ancestors ++ [trail.vertex], child⟩

end Trail

/-- The trail goes from the vertex to one of its children, to a child of that, and so on. -/
inductive Leads (children : Nat → List Nat) : Nat → Trail → Prop where
  | start (id : Nat) : Leads children id (.start id)
  | cons {id child place : Nat} {trail : Trail} : (children id)[place]? = some child →
      Leads children child trail → Leads children id (trail.cons id place)

/-- A search with a stack of ancestors comes to its end. It lists what it is to do, and it goes on
to the children of what is not on the stack. -/
inductive Collects (children : Nat → List Nat) :
    List Nat → List (Twig × Nat) → List (Twig × Nat) → Prop where
  | done {stack : List Nat} : Collects children stack [] []
  | again {stack : List Nat} {twig : Twig} {id : Nat} {todo tree : List (Twig × Nat)} :
      id ∈ stack → Collects children stack todo tree →
      Collects children stack ((twig, id) :: todo) ((twig, id) :: tree)
  | expand {stack : List Nat} {twig : Twig} {id : Nat} {todo below tree : List (Twig × Nat)} :
      id ∉ stack → Collects children (stack ++ [id]) (siblings twig (children id)) below →
      Collects children stack todo tree →
      Collects children stack ((twig, id) :: todo) ((twig, id) :: (below ++ tree))

/-- The trails from a vertex that pass distinct vertices of `fresh` before their ends, in
depth-first order. -/
def trails (children : Nat → List Nat) (fresh : List Nat) (id : Nat) : List Trail :=
  .start id ::
    if id ∈ fresh then
      (children id).zipIdx.flatMap fun child =>
        (trails children (fresh.erase id) child.1).map (Trail.cons id child.2)
    else []
termination_by fresh.length
decreasing_by
  rename_i present
  have shorter := List.length_erase_of_mem present
  have nonempty := List.length_pos_of_mem present
  omega

variable {children : Nat → List Nat} {fresh : List Nat} {id vertex place : Nat} {trail : Trail}

section Trails

theorem mem_trails_cases : trail ∈ trails children fresh id ↔ trail = .start id ∨ id ∈ fresh ∧
    ∃ place child below, (children id)[place]? = some child ∧
      below ∈ trails children (fresh.erase id) child ∧ trail = below.cons id place := by
  rw [trails, List.mem_cons]
  refine or_congr_right ?_
  split
  · next h =>
    simp only [h, true_and, List.mem_flatMap, List.mem_map]
    constructor
    · rintro ⟨⟨child, place⟩, hc, below, hb, rfl⟩
      exact ⟨place, child, below, List.mem_zipIdx_iff_getElem?.mp hc, hb, rfl⟩
    · rintro ⟨place, child, below, hc, hb, rfl⟩
      exact ⟨(child, place), List.mem_zipIdx_iff_getElem?.mpr hc, below, hb, rfl⟩
  · next h => simp [h]

theorem nodup_cons_fresh_iff (hf : fresh.Nodup) {ancestors : List Nat} :
    ((id :: ancestors).Nodup ∧ ∀ v ∈ id :: ancestors, v ∈ fresh) ↔
      id ∈ fresh ∧ ancestors.Nodup ∧ ∀ v ∈ ancestors, v ∈ fresh.erase id := by
  simp only [List.nodup_cons, List.forall_mem_cons, hf.mem_erase_iff]
  constructor
  · rintro ⟨⟨hn, hd⟩, hid, ha⟩
    refine ⟨hid, hd, fun v hv => ⟨?_, ha v hv⟩⟩
    rintro rfl
    exact hn hv
  · rintro ⟨hid, hd, ha⟩
    exact ⟨⟨fun hv => (ha id hv).1 rfl, hd⟩, hid, fun v hv => (ha v hv).2⟩

theorem mem_trails_iff (hf : fresh.Nodup) : trail ∈ trails children fresh id ↔
    Leads children id trail ∧ trail.ancestors.Nodup ∧ ∀ v ∈ trail.ancestors, v ∈ fresh := by
  induction fresh, id using trails.induct generalizing trail with
  | case1 fresh id ih =>
    rw [mem_trails_cases]
    constructor
    · rintro (rfl | ⟨hid, place, child, below, hc, hb, rfl⟩)
      · exact ⟨.start id, List.nodup_nil, List.forall_mem_nil _⟩
      · obtain ⟨hl, hn⟩ := (ih hid (child, place) (hf.erase id)).mp hb
        exact ⟨.cons hc hl, (nodup_cons_fresh_iff hf).mpr ⟨hid, hn⟩⟩
    · rintro ⟨hl, hn⟩
      cases hl with
      | start => exact .inl rfl
      | @cons _ child place below hc hl =>
        obtain ⟨hid, hn⟩ := (nodup_cons_fresh_iff hf).mp hn
        exact .inr ⟨hid, place, child, below, hc,
          (ih hid (child, place) (hf.erase id)).mpr ⟨hl, hn⟩, rfl⟩

/-- A trail comes before those that continue it, and trails to the left come before those to the
right. -/
theorem pairwise_trails : (trails children fresh id).Pairwise fun a b =>
    List.Lex (· < ·) a.path b.path := by
  induction fresh, id using trails.induct with
  | case1 fresh id ih =>
    rw [trails, List.pairwise_cons]
    constructor
    · intro trail ht
      split at ht
      · obtain ⟨child, _, ht⟩ := List.mem_flatMap.mp ht
        obtain ⟨below, _, rfl⟩ := List.mem_map.mp ht
        exact .nil
      · cases ht
    · split
      · next hid =>
        refine List.pairwise_flatMap.mpr ⟨fun child _ => ?_, ?_⟩
        · exact List.pairwise_map.mpr ((ih hid child).imp .cons)
        · have hp : (children id).zipIdx.Pairwise (·.2 < ·.2) := by
            rw [← List.pairwise_map, List.zipIdx_map_snd]
            exact List.pairwise_lt_range'
          refine hp.imp fun hlt a ha b hb => ?_
          obtain ⟨_, _, rfl⟩ := List.mem_map.mp ha
          obtain ⟨_, _, rfl⟩ := List.mem_map.mp hb
          exact .rel hlt
      · exact .nil

theorem siblings_eq_map (twig : Twig) (ids : List Nat) (first : Nat) :
    siblings twig ids = (ids.zipIdx first).map fun entry =>
      (twig.child (decide (entry.2 + 1 = first + ids.length)), entry.1) := by
  induction ids using siblings.induct generalizing first with
  | case1 => rfl
  | case2 id => simp [siblings]
  | case3 id next rest ih =>
    rw [siblings, ih (first + 1), List.zipIdx_cons, List.map_cons]
    have hlength : first + 1 + (next :: rest).length = first + (id :: next :: rest).length := by
      simp only [List.length_cons]
      omega
    rw [hlength]
    simp

theorem depth_child (twig : Twig) (last : Bool) : (twig.child last).depth = twig.depth + 1 := by
  simp [Twig.child, Twig.depth]

/-- The entries of a tree are the ends of its trails, each one as deep as its trail is long. -/
theorem map_expand (twig : Twig) :
    (expand children fresh twig id).map (fun entry => (entry.1.depth, entry.2)) =
      (trails children fresh id).map fun trail =>
        (twig.depth + trail.path.length, trail.vertex) := by
  induction fresh, twig, id using expand.induct with
  | case1 fresh twig id ih =>
    rw [expand, trails, List.map_cons, List.map_cons]
    congr 1
    split
    · next hid =>
      rw [siblings_eq_map twig (children id) 0, List.flatMap_map, List.map_flatMap,
        List.map_flatMap]
      congr 1
      funext child
      rw [List.map_map]
      refine (ih hid _ child.1).trans (List.map_congr_left fun trail _ => ?_)
      simp only [depth_child, Function.comp_apply, Trail.cons, List.length_cons, Prod.mk.injEq,
        and_true]
      omega
    · rfl

end Trails

namespace Leads

variable {other longer : Trail} {child : Nat}

theorem length_ancestors (h : Leads children id trail) :
    trail.ancestors.length = trail.path.length := by
  induction h with
  | start => rfl
  | cons _ _ ih => exact congrArg (· + 1) ih

theorem children_ne_nil (h : Leads children id trail) : ∀ v ∈ trail.ancestors, children v ≠ [] := by
  induction h with
  | start => exact List.forall_mem_nil _
  | cons hc _ ih =>
    have hne := List.ne_nil_of_mem (List.mem_of_getElem? hc)
    exact List.forall_mem_cons.mpr ⟨hne, ih⟩

theorem concat (h : Leads children id trail) (hc : (children trail.vertex)[place]? = some child) :
    Leads children id (trail.concat place child) := by
  induction h with
  | start id => exact .cons hc (.start child)
  | cons hx _ ih => exact .cons hx (ih hc)

theorem exists_eq_concat (h : Leads children id trail) (hl : Leads children id longer)
    (hp : longer.path = trail.path ++ [place]) :
    ∃ child, (children trail.vertex)[place]? = some child ∧ longer = trail.concat place child := by
  induction h generalizing longer with
  | start id =>
    cases hl with
    | start => cases hp
    | cons hc hl =>
      obtain ⟨rfl, hn⟩ := List.cons.inj hp
      cases hl with
      | start => exact ⟨_, hc, rfl⟩
      | cons => cases hn
  | cons hx _ ih =>
    cases hl with
    | start => cases hp
    | cons hc hl =>
      obtain ⟨rfl, hrest⟩ := List.cons.inj hp
      obtain rfl := Option.some.inj (hc.symm.trans hx)
      obtain ⟨child, hc, rfl⟩ := ih hl hrest
      exact ⟨child, hc, rfl⟩

theorem reflTransGen (h : Leads children id trail) :
    Relation.ReflTransGen (fun a b => b ∈ children a) id trail.vertex := by
  induction h with
  | start => exact .refl
  | cons hc _ ih => exact .head (List.mem_of_getElem? hc) ih

theorem exists_of_reflTransGen
    (h : Relation.ReflTransGen (fun a b => b ∈ children a) id vertex) :
    ∃ trail, Leads children id trail ∧ trail.vertex = vertex := by
  induction h using Relation.ReflTransGen.head_induction_on with
  | refl => exact ⟨_, .start vertex, rfl⟩
  | head hc _ ih =>
    obtain ⟨trail, hl, rfl⟩ := ih
    obtain ⟨place, hp⟩ := List.mem_iff_getElem?.mp hc
    exact ⟨_, .cons hp hl, rfl⟩

theorem exists_suffix (h : Leads children id trail) {v : Nat} (hv : v ∈ trail.ancestors) :
    ∃ rest, Leads children v rest ∧ rest.vertex = trail.vertex ∧
      rest.ancestors <:+ trail.ancestors := by
  induction h with
  | start => cases hv
  | @cons id child place trail hc hl ih =>
    rcases List.mem_cons.mp hv with rfl | hv
    · exact ⟨_, .cons hc hl, rfl, List.suffix_refl _⟩
    · obtain ⟨rest, hr, he, hs⟩ := ih hv
      exact ⟨rest, hr, he, hs.trans (List.suffix_cons id _)⟩

/-- Whatever a trail leads to, a trail without repetition leads to: where the start comes again, the
steps before that are left out. -/
theorem exists_nodup (h : Leads children id trail) :
    ∃ simple, Leads children id simple ∧ simple.vertex = trail.vertex ∧ simple.ancestors.Nodup := by
  induction h with
  | start id => exact ⟨_, .start id, rfl, List.nodup_nil⟩
  | @cons id child place trail hc hl ih =>
    obtain ⟨simple, hs, he, hn⟩ := ih
    by_cases hid : id ∈ simple.ancestors
    · obtain ⟨rest, hr, hx, hsuffix⟩ := hs.exists_suffix hid
      exact ⟨rest, hr, hx.trans he, hn.sublist hsuffix.sublist⟩
    · exact ⟨_, .cons hc hs, he, List.nodup_cons.mpr ⟨hid, hn⟩⟩

end Leads

section Search

variable {stack : List Nat} {todo tree other : List (Twig × Nat)}

theorem Collects.unique (h : Collects children stack todo tree)
    (h' : Collects children stack todo other) : tree = other := by
  induction h generalizing other with
  | done =>
    cases h'
    rfl
  | again hid _ ih =>
    cases h' with
    | again _ h' => rw [ih h']
    | expand hn => exact absurd hid hn
  | expand hid _ _ ihb iht =>
    cases h' with
    | again hm => exact absurd hm hid
    | expand _ hb ht => rw [ihb hb, iht ht]

/-- The search with a stack finds what is fresh, as long as every vertex with children is fresh or
on the stack. -/
theorem collects_expand (hf : fresh.Nodup) (hs : ∀ v ∈ stack, v ∉ fresh)
    (hc : ∀ v, children v ≠ [] → v ∈ stack ∨ v ∈ fresh) (todo : List (Twig × Nat)) :
    Collects children stack todo
      (todo.flatMap fun entry => expand children fresh entry.1 entry.2) := by
  induction hn : fresh.length using Nat.strong_induction_on generalizing fresh stack todo with
  | _ count ih =>
    induction todo with
    | nil => exact .done
    | cons entry todo iht =>
      obtain ⟨twig, id⟩ := entry
      rw [List.flatMap_cons, expand, List.cons_append]
      split
      · next hid =>
        have hlt : (fresh.erase id).length < count := by
          have hpos := List.length_pos_of_mem hid
          rw [List.length_erase_of_mem hid]
          omega
        -- Below the vertex, the vertex is on the stack and no longer fresh.
        refine .expand (fun hm => hs id hm hid) (ih _ hlt (hf.erase id) ?_ ?_ _ rfl) iht
        · intro v hv hm
          obtain ⟨hne, hm⟩ := hf.mem_erase_iff.mp hm
          rcases List.mem_append.mp hv with hv | hv
          · exact hs v hv hm
          · exact hne (List.mem_singleton.mp hv)
        · intro v hv
          rw [List.mem_append, List.mem_singleton, hf.mem_erase_iff]
          rcases hc v hv with h | h
          · exact .inl (.inl h)
          · by_cases he : v = id
            · exact .inl (.inr he)
            · exact .inr ⟨he, h⟩
      · next hid =>
        by_cases hm : id ∈ stack
        · exact .again hm iht
        · have hnil : children id = [] := by
            by_contra hne
            rcases hc id hne with h | h
            · exact hm h
            · exact hid h
          refine .expand hm ?_ iht
          rw [hnil]
          exact .done

end Search

variable {hierarchy : Hierarchy} {dependency : DependencyGraph}

theorem lt_numVertices_of_children (h : hierarchy.graph.Closed)
    (hc : hierarchy.children vertex ≠ []) : vertex < hierarchy.graph.numVertices := by
  obtain ⟨child, hm⟩ := List.exists_mem_of_ne_nil _ hc
  obtain ⟨edge, he, _⟩ := List.mem_map.mp hm
  obtain ⟨hm, ht⟩ := List.mem_filter.mp he
  exact of_decide_eq_true ht ▸ (h edge hm).2

theorem closed_ofDependency (dependency : DependencyGraph) :
    (ofDependency dependency).graph.Closed := by
  have hlt : ∀ {place number : Nat}, (kept dependency)[place]? = some number →
      place < (graphOf dependency).numVertices := by
    intro place number hp
    rw [Graph.numVertices, vertices_graphOf_eq_map, List.length_map]
    have hlt := (List.getElem?_eq_some_iff.mp hp).1
    rwa [kept, List.length_map] at hlt
  rintro ⟨source, target, kind⟩ he
  obtain ⟨_, a, b, ha, hb, _⟩ := mem_edges_graphOf_iff.mp he
  exact ⟨hlt ha, hlt hb⟩

def trailsFrom (hierarchy : Hierarchy) (root : Nat) : List Trail :=
  trails hierarchy.children hierarchy.graph.vertexIds root

variable {root : Nat}

theorem mem_trailsFrom_iff (h : hierarchy.graph.Closed) : trail ∈ hierarchy.trailsFrom root ↔
    Leads hierarchy.children root trail ∧ trail.ancestors.Nodup := by
  rw [trailsFrom, Graph.vertexIds, mem_trails_iff List.nodup_range]
  refine and_congr_right fun hl => and_iff_left_of_imp fun _ v hv => ?_
  exact List.mem_range.mpr (lt_numVertices_of_children h (hl.children_ne_nil v hv))

theorem map_tree (hierarchy : Hierarchy) (root : Nat) :
    (hierarchy.tree root).map (fun entry => (entry.1.depth, entry.2)) =
      (hierarchy.trailsFrom root).map fun trail => (trail.path.length, trail.vertex) := by
  refine (map_expand .root).trans (List.map_congr_left fun trail _ => ?_)
  simp [Twig.depth, Twig.root]

theorem collects_tree_iff (h : hierarchy.graph.Closed) {entries : List (Twig × Nat)} :
    Collects hierarchy.children [] [(.root, root)] entries ↔ entries = hierarchy.tree root := by
  have htree : Collects hierarchy.children [] [(.root, root)] (hierarchy.tree root) := by
    have hc : ∀ v, hierarchy.children v ≠ [] → v ∈ [] ∨ v ∈ hierarchy.graph.vertexIds :=
      fun v hv => .inr (List.mem_range.mpr (lt_numVertices_of_children h hv))
    have := collects_expand List.nodup_range (List.forall_mem_nil _) hc [(.root, root)]
    rwa [List.flatMap_singleton] at this
  constructor
  · exact fun hx => hx.unique htree
  · rintro rfl
    exact htree

theorem length_path_le (h : hierarchy.graph.Closed) (ht : trail ∈ hierarchy.trailsFrom root) :
    trail.path.length ≤ hierarchy.graph.numVertices := by
  obtain ⟨hl, hn⟩ := (mem_trailsFrom_iff h).mp ht
  have hs : trail.ancestors ⊆ List.range hierarchy.graph.numVertices := fun v hv =>
    List.mem_range.mpr (lt_numVertices_of_children h (hl.children_ne_nil v hv))
  calc trail.path.length
    _ = trail.ancestors.length := hl.length_ancestors.symm
    _ ≤ (List.range hierarchy.graph.numVertices).length := (hn.subperm hs).length_le
    _ = hierarchy.graph.numVertices := List.length_range

theorem exists_below_iff (h : hierarchy.graph.Closed) (ht : trail ∈ hierarchy.trailsFrom root) :
    (∃ below ∈ hierarchy.trailsFrom root, below.path = trail.path ++ [place]) ↔
      trail.vertex ∉ trail.ancestors ∧ place < (hierarchy.children trail.vertex).length := by
  obtain ⟨hl, hn⟩ := (mem_trailsFrom_iff h).mp ht
  have hnodup : ∀ child, (trail.concat place child).ancestors.Nodup ↔
      trail.vertex ∉ trail.ancestors := fun child => by
    simp [Trail.concat, List.nodup_append, hn, List.forall_mem_ne']
  constructor
  · rintro ⟨below, hb, hp⟩
    obtain ⟨hx, hd⟩ := (mem_trailsFrom_iff h).mp hb
    obtain ⟨child, hc, rfl⟩ := hl.exists_eq_concat hx hp
    exact ⟨(hnodup child).mp hd, (List.getElem?_eq_some_iff.mp hc).1⟩
  · rintro ⟨hv, hlt⟩
    have hc := List.getElem?_eq_getElem hlt
    exact ⟨_, (mem_trailsFrom_iff h).mpr ⟨hl.concat hc, (hnodup _).mpr hv⟩, rfl⟩

theorem mem_tree_iff (h : hierarchy.graph.Closed) :
    vertex ∈ (hierarchy.tree root).map Prod.snd ↔
      Relation.ReflTransGen (fun a b => b ∈ hierarchy.children a) root vertex := by
  have hmap : (hierarchy.tree root).map Prod.snd =
      (hierarchy.trailsFrom root).map Trail.vertex := by
    simpa [Function.comp_def] using congrArg (List.map Prod.snd) (hierarchy.map_tree root)
  rw [hmap, List.mem_map]
  constructor
  · rintro ⟨trail, ht, rfl⟩
    exact ((mem_trailsFrom_iff h).mp ht).1.reflTransGen
  · intro hr
    obtain ⟨trail, hl, rfl⟩ := Leads.exists_of_reflTransGen hr
    obtain ⟨simple, hs, he, hn⟩ := hl.exists_nodup
    exact ⟨simple, (mem_trailsFrom_iff h).mpr ⟨hs, hn⟩, he⟩

/-- The tree below a vertex is exact. A search with a stack of ancestors ends with it. Its entries
are the trails without repetition before their ends, in depth-first order and each one as deep as
its trail is long. An entry has the children of its vertex below it unless the vertex is among its
ancestors. The entries are of the vertices that can be reached. -/
structure TreeExact (hierarchy : Hierarchy) (root : Nat) (trails : List Trail) : Prop where
  collected : ∀ entries, Collects hierarchy.children [] [(.root, root)] entries ↔
    entries = hierarchy.tree root
  mem_trails : ∀ trail, trail ∈ trails ↔
    Leads hierarchy.children root trail ∧ trail.ancestors.Nodup
  ordered : trails.Pairwise fun a b => List.Lex (· < ·) a.path b.path
  entries : (hierarchy.tree root).map (fun entry => (entry.1.depth, entry.2)) =
    trails.map fun trail => (trail.path.length, trail.vertex)
  bounded : ∀ entry ∈ hierarchy.tree root, entry.1.depth ≤ hierarchy.graph.numVertices
  expanded : ∀ trail ∈ trails, ∀ place,
    (∃ below ∈ trails, below.path = trail.path ++ [place]) ↔
      trail.vertex ∉ trail.ancestors ∧ place < (hierarchy.children trail.vertex).length
  reached : ∀ vertex, vertex ∈ (hierarchy.tree root).map Prod.snd ↔
    Relation.ReflTransGen (fun a b => b ∈ hierarchy.children a) root vertex

/-- In every hierarchy the tree below every vertex is exact, whether or not units instantiate
themselves. -/
theorem tree_exact (dependency : DependencyGraph) (root : Nat) :
    ∃ trails, (ofDependency dependency).TreeExact root trails := by
  have h := closed_ofDependency dependency
  refine ⟨(ofDependency dependency).trailsFrom root, fun _ => collects_tree_iff h,
    fun _ => mem_trailsFrom_iff h, pairwise_trails, map_tree _ root, fun entry he => ?_,
    fun _ ht _ => exists_below_iff h ht, fun _ => mem_tree_iff h⟩
  have hm := List.mem_map_of_mem (f := fun entry : Twig × Nat => (entry.1.depth, entry.2)) he
  rw [map_tree] at hm
  obtain ⟨trail, ht, heq⟩ := List.mem_map.mp hm
  rw [← (Prod.mk.inj heq).1]
  exact length_path_le h ht

end Hierarchy

end Vhdl
