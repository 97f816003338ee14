import Vhdl.Proofs.Derivation

/-! # The children of a vertex

A vertex of the hierarchy has a child for every edge that comes from below. Edges of one kind are
not repeated, however many instances there are, while edges of different kinds are different edges.
A unit is therefore a child once for each kind of instance that binds to it, and it is drawn with as
many subtrees.
-/

namespace Vhdl

namespace Graph

variable {κ ν ε : Type} {graph : Graph κ ν ε} {source target : Nat}

def weightsBetween (graph : Graph κ ν ε) (source target : Nat) : List ε :=
  ((graph.incoming target).filter (·.source = source)).map Edge.weight

theorem mem_incoming_filter_iff {edge : Edge ε} :
    edge ∈ (graph.incoming target).filter (·.source = source) ↔
      edge ∈ graph.edges ∧ edge.target = target ∧ edge.source = source := by
  rw [incoming, List.mem_filter, List.mem_filter, decide_eq_true_iff, decide_eq_true_iff, and_assoc]

theorem mem_weightsBetween_iff {weight : ε} :
    weight ∈ graph.weightsBetween source target ↔ ⟨source, target, weight⟩ ∈ graph.edges := by
  rw [weightsBetween, List.mem_map]
  constructor
  · rintro ⟨edge, he, rfl⟩
    obtain ⟨hm, rfl, rfl⟩ := mem_incoming_filter_iff.mp he
    exact hm
  · intro hm
    exact ⟨_, mem_incoming_filter_iff.mpr ⟨hm, rfl, rfl⟩, rfl⟩

theorem nodup_weightsBetween (h : graph.edges.Nodup) :
    (graph.weightsBetween source target).Nodup := by
  refine ((h.filter _).filter _).map_on fun a ha b hb hw => ?_
  obtain ⟨_, hta, hsa⟩ := mem_incoming_filter_iff.mp ha
  obtain ⟨_, htb, hsb⟩ := mem_incoming_filter_iff.mp hb
  cases a
  cases b
  simp_all

theorem count_predecessors :
    (graph.predecessors target).count source = (graph.weightsBetween source target).length := by
  rw [predecessors, weightsBetween, List.length_map, List.count, List.countP_map,
    List.countP_eq_length_filter]
  congr 1

end Graph

theorem EdgeKind.length_le_one_iff {kinds : List EdgeKind} (h : kinds.Nodup) :
    kinds.length ≤ 1 ↔ ∀ kind ∈ kinds, ∀ other ∈ kinds, kind = other := by
  rw [← List.toFinset_card_of_nodup h, Finset.card_le_one]
  simp only [List.mem_toFinset]

/-- The unit is directly below the other one by an edge of that kind: it is an architecture of it,
or another unit that one of its instances binds to. -/
def Store.DirectlyBelow (store : Store) (above : UnitId) (kind : EdgeKind) (id : UnitId) : Prop :=
  kind = .entityImplementation ∧ store.LinkedTo id above ∨
    kind.edgeClass = .instantiates ∧ id ≠ above ∧ store.InstanceBinds above kind id

theorem Store.DirectlyBelow.of_instantiates {store : Store} {above id : UnitId} {kind : EdgeKind}
    (h : store.DirectlyBelow above kind id) (hk : kind.edgeClass = .instantiates) :
    id ≠ above ∧ store.InstanceBinds above kind id := by
  rcases h with ⟨rfl, _⟩ | ⟨_, h⟩
  · cases hk
  · exact h

/-- Only an architecture has instances, and only an entity has architectures. -/
theorem Store.Settled.directlyBelow_kind_unique {store : Store} (h : store.Settled)
    {above id : UnitId} {kind other : EdgeKind} (hx : store.DirectlyBelow above kind id)
    (hy : store.DirectlyBelow above other id)
    (hu : kind.edgeClass = .instantiates → other.edgeClass = .instantiates → kind = other) :
    kind = other := by
  have hne : ∀ {kind : EdgeKind}, store.LinkedTo id above →
      ¬ (kind.edgeClass = .instantiates ∧ id ≠ above ∧ store.InstanceBinds above kind id) := by
    rintro kind hl ⟨hk, _, hb⟩
    have ha := Store.Instantiates.architecture ⟨kind, hk, hb⟩
    exact h.ne_of_entity ha (h.linkedTo_entity hl) rfl
  rcases hx with ⟨rfl, hl⟩ | hx
  · rcases hy with ⟨rfl, _⟩ | hy
    · rfl
    · exact (hne hl hy).elim
  · rcases hy with ⟨_, hl⟩ | hy
    · exact (hne hl hx).elim
    · exact hu hx.1 hy.1

namespace Analysis.Faithful

variable {analysis : Analysis} {store : Store} {a b : UnitId} {x y : Nat} {kind : EdgeKind}

theorem mem_hierarchy_edges_iff (h : analysis.Faithful store)
    (hx : analysis.hierarchy.graph.target? x = some (.unit a))
    (hy : analysis.hierarchy.graph.target? y = some (.unit b)) :
    ⟨x, y, kind⟩ ∈ analysis.hierarchy.graph.edges ↔ store.DirectlyBelow b kind a := by
  constructor
  · intro he
    rw [h.hierarchy] at he
    obtain ⟨_, m, n, hm, hn, hc⟩ := Hierarchy.mem_edges_graphOf_iff.mp he
    rw [h.target?_hierarchy, hm, Option.bind_some] at hx
    rw [h.target?_hierarchy, hn, Option.bind_some] at hy
    rcases hc with ⟨hk, he⟩ | ⟨hk, he⟩
    · obtain ⟨id, hid, hh⟩ := h.mem_kept_iff.mp (List.mem_of_getElem? hm)
      obtain rfl : kind = _ := h.weight_of_implements he hk (.inl hid) hh
      exact .inl ⟨rfl, h.connects_linkedTo_iff.mp ⟨m, n, hx, hy, he⟩⟩
    · have hl := EdgeKind.isLinked_of_instantiates hk
      exact .inr ⟨hk, (h.instances.edge_iff kind hl b a).mp ⟨n, m, hy, hx, he⟩⟩
  · rintro (⟨rfl, hl⟩ | ⟨hk, hne, hb⟩)
    · have hne := h.settled.ne_of_entity hl.architecture (h.settled.linkedTo_entity hl)
      exact h.mem_hierarchy_edges hne hx hy (.inl ⟨rfl, h.connects_linkedTo_iff.mpr hl⟩)
    · have hl := EdgeKind.isLinked_of_instantiates hk
      have hc := (h.instances.edge_iff kind hl b a).mpr ⟨hne, hb⟩
      exact h.mem_hierarchy_edges hne hx hy (.inr ⟨hk, hc⟩)

theorem exists_unit_of_lt (h : analysis.Faithful store)
    (hx : x < analysis.hierarchy.graph.numVertices) :
    ∃ id, analysis.hierarchy.graph.target? x = some (.unit id) := by
  obtain ⟨entry, hv⟩ : ∃ entry, analysis.hierarchy.graph.vertices[x]? = some entry :=
    ⟨_, List.getElem?_eq_getElem hx⟩
  rw [h.target?_hierarchy]
  rw [h.hierarchy] at hv
  obtain ⟨number, hn, _⟩ :=
    Option.bind_eq_some_iff.mp ((Hierarchy.vertices_graphOf_getElem? _ x).symm.trans hv)
  obtain ⟨id, hid, _⟩ := h.mem_kept_iff.mp (List.mem_of_getElem? hn)
  exact ⟨id, by rw [hn, Option.bind_some, hid]⟩

theorem units_of_mem_children (h : analysis.Faithful store)
    (hx : x ∈ analysis.hierarchy.children y) :
    ∃ a b, analysis.hierarchy.graph.target? y = some (.unit a) ∧
      analysis.hierarchy.graph.target? x = some (.unit b) := by
  have hclosed := h.hierarchyDerived.closed
  obtain ⟨edge, he, rfl⟩ := List.mem_map.mp hx
  obtain ⟨hm, ht⟩ := List.mem_filter.mp he
  obtain rfl := of_decide_eq_true ht
  obtain ⟨b, hb⟩ := h.exists_unit_of_lt (hclosed edge hm).1
  obtain ⟨a, ha⟩ := h.exists_unit_of_lt (hclosed edge hm).2
  exact ⟨a, b, ha, hb⟩

/-- A unit is a child once for each kind of edge by which it is directly below. -/
theorem exists_kinds_below (h : analysis.Faithful store)
    (hy : analysis.hierarchy.graph.target? y = some (.unit a))
    (hx : analysis.hierarchy.graph.target? x = some (.unit b)) :
    ∃ kinds : List EdgeKind, kinds.Nodup ∧ (∀ kind, kind ∈ kinds ↔ store.DirectlyBelow a kind b) ∧
      (analysis.hierarchy.children y).count x = kinds.length :=
  ⟨analysis.hierarchy.graph.weightsBetween x y,
    Graph.nodup_weightsBetween h.hierarchyDerived.nodup,
    fun _ => Graph.mem_weightsBetween_iff.trans (h.mem_hierarchy_edges_iff hx hy),
    Graph.count_predecessors⟩

theorem nodup_children_iff (h : analysis.Faithful store)
    (hy : analysis.hierarchy.graph.target? y = some (.unit a)) :
    (analysis.hierarchy.children y).Nodup ↔ ∀ b, b ≠ a → ∀ kind other,
      kind.edgeClass = .instantiates → other.edgeClass = .instantiates →
      store.InstanceBinds a kind b → store.InstanceBinds a other b → kind = other := by
  rw [List.nodup_iff_count_le_one]
  constructor
  · intro hn b hne kind other hk ho hb hb'
    obtain ⟨_, hbelow⟩ := h.settled.isHierarchical_of_instantiates ⟨kind, hk, hb⟩
    obtain ⟨x, hx⟩ := h.exists_place hbelow
    obtain ⟨kinds, hd, hm, hc⟩ := h.exists_kinds_below hy hx
    have hle : kinds.length ≤ 1 := hc ▸ hn x
    exact (EdgeKind.length_le_one_iff hd).mp hle kind ((hm kind).mpr (.inr ⟨hk, hne, hb⟩)) other
      ((hm other).mpr (.inr ⟨ho, hne, hb'⟩))
  · intro hu x
    by_cases hx : x ∈ analysis.hierarchy.children y
    · obtain ⟨_, b, hy', hx⟩ := h.units_of_mem_children hx
      obtain ⟨kinds, hd, hm, hc⟩ := h.exists_kinds_below hy hx
      rw [hc, EdgeKind.length_le_one_iff hd]
      intro kind hk other ho
      rw [hm] at hk ho
      refine h.settled.directlyBelow_kind_unique hk ho fun hi hi' => ?_
      obtain ⟨hne, hb⟩ := hk.of_instantiates hi
      exact hu b hne kind other hi hi' hb (ho.of_instantiates hi').2
    · rw [List.count_eq_zero_of_not_mem hx]
      exact Nat.zero_le 1

end Analysis.Faithful

namespace Hierarchy

def line (hierarchy : Hierarchy) (entry : Twig × Nat) : String :=
  entry.1.drawing ++ (hierarchy.graph.keyOf? entry.2).getD "" ++ "\n"

/-- The entries are a subtree one level below the root, which starts with the vertex. -/
def IsSubtree (id : Nat) (entries : List (Twig × Nat)) : Prop :=
  ∃ twig below, entries = (twig, id) :: below ∧ twig.depth = 1 ∧ ∀ entry ∈ below, 1 < entry.1.depth

variable {children : Nat → List Nat} {fresh : List Nat} {twig : Twig} {id : Nat}

theorem depth_le_of_mem_expand {entry : Twig × Nat} (he : entry ∈ expand children fresh twig id) :
    twig.depth ≤ entry.1.depth := by
  have hm := List.mem_map_of_mem (f := fun entry : Twig × Nat => (entry.1.depth, entry.2)) he
  rw [map_expand] at hm
  obtain ⟨trail, _, heq⟩ := List.mem_map.mp hm
  rw [← (Prod.mk.inj heq).1]
  exact Nat.le_add_right _ _

theorem depth_of_mem_siblings {ids : List Nat} {entry : Twig × Nat}
    (he : entry ∈ siblings twig ids) : entry.1.depth = twig.depth + 1 := by
  rw [siblings_eq_map twig ids 0] at he
  obtain ⟨_, _, rfl⟩ := List.mem_map.mp he
  exact depth_child twig _

def forest (children : Nat → List Nat) (fresh : List Nat) (twig : Twig) (ids : List Nat) :
    List (Twig × Nat) :=
  (siblings twig ids).flatMap fun entry => expand children fresh entry.1 entry.2

theorem expand_eq_cons (children : Nat → List Nat) (fresh : List Nat) (twig : Twig) (id : Nat) :
    expand children fresh twig id = (twig, id) ::
      if id ∈ fresh then forest children (fresh.erase id) twig (children id) else [] := by
  rw [expand]
  rfl

theorem depth_lt_of_mem_forest {ids : List Nat} {entry : Twig × Nat}
    (he : entry ∈ forest children fresh twig ids) : twig.depth < entry.1.depth := by
  obtain ⟨sibling, hs, he⟩ := List.mem_flatMap.mp he
  have hd := depth_of_mem_siblings hs
  have hle := depth_le_of_mem_expand he
  omega

theorem exists_expand_eq_cons (children : Nat → List Nat) (fresh : List Nat) (twig : Twig)
    (id : Nat) : ∃ below, expand children fresh twig id = (twig, id) :: below ∧
      ∀ entry ∈ below, twig.depth < entry.1.depth := by
  refine ⟨_, expand_eq_cons children fresh twig id, fun entry he => ?_⟩
  split at he
  · exact depth_lt_of_mem_forest he
  · cases he

theorem forall₂_siblings (ids : List Nat) : List.Forall₂
    (fun id entry => entry.2 = id ∧ entry.1.depth = twig.depth + 1) ids (siblings twig ids) := by
  induction ids using siblings.induct with
  | case1 => exact .nil
  | case2 id => exact .cons ⟨rfl, depth_child twig true⟩ .nil
  | case3 id next rest ih => exact .cons ⟨rfl, depth_child twig false⟩ ih

/-- The tree below a vertex has one subtree for each child. -/
theorem exists_subtrees {hierarchy : Hierarchy} (h : hierarchy.graph.Closed) (root : Nat) :
    ∃ subtrees, hierarchy.tree root = (.root, root) :: subtrees.flatten ∧
      List.Forall₂ IsSubtree (hierarchy.children root) subtrees := by
  rw [tree, expand]
  split
  · refine ⟨(siblings .root (hierarchy.children root)).map fun entry =>
      expand hierarchy.children (hierarchy.graph.vertexIds.erase root) entry.1 entry.2, rfl, ?_⟩
    rw [List.forall₂_map_right_iff]
    refine (forall₂_siblings _).imp ?_
    rintro _ ⟨twig, id⟩ ⟨rfl, hd⟩
    obtain ⟨below, he, hb⟩ := exists_expand_eq_cons hierarchy.children
      (hierarchy.graph.vertexIds.erase root) twig id
    have hone : twig.depth = 1 := hd
    exact ⟨twig, below, he, hone, fun entry hm => hone ▸ hb entry hm⟩
  · next hroot =>
    have hnil : hierarchy.children root = [] := by
      by_contra hne
      exact hroot (List.mem_range.mpr (lt_numVertices_of_children h hne))
    rw [hnil]
    exact ⟨[], rfl, .nil⟩

theorem join_flatten (texts : List (List String)) :
    String.join texts.flatten = String.join (texts.map String.join) := by
  induction texts with
  | nil => rfl
  | cons first rest ih => simp [String.join_cons, String.join_append, ih]

theorem treeView_eq {hierarchy : Hierarchy} {root : Nat} {subtrees : List (List (Twig × Nat))}
    (h : hierarchy.tree root = (.root, root) :: subtrees.flatten) :
    hierarchy.treeView root = hierarchy.line (.root, root) ++
      String.join (subtrees.map fun entries => String.join (entries.map hierarchy.line)) := by
  have hview : hierarchy.treeView root = String.join ((hierarchy.tree root).map hierarchy.line) :=
    rfl
  rw [hview, h, List.map_cons, String.join_cons, List.map_flatten, join_flatten, List.map_map]
  rfl

end Hierarchy

/-- The children of the vertices are exact. A unit is among them once for each kind of edge by which
it is directly below: an architecture of an entity is there once, and a unit with instances in an
architecture is there once for each kind of instance. So there is no repetition unless instances of
different kinds bind to one unit. The tree below a vertex and its view have one subtree for each
child. -/
structure Analysis.ChildrenExact (analysis : Analysis) (store : Store) : Prop where
  units : ∀ place child, child ∈ analysis.hierarchy.children place → ∃ a b,
    analysis.hierarchy.graph.target? place = some (.unit a) ∧
      analysis.hierarchy.graph.target? child = some (.unit b)
  count : ∀ place child a b, analysis.hierarchy.graph.target? place = some (.unit a) →
    analysis.hierarchy.graph.target? child = some (.unit b) →
    ∃ kinds : List EdgeKind, kinds.Nodup ∧ (∀ kind, kind ∈ kinds ↔ store.DirectlyBelow a kind b) ∧
      (analysis.hierarchy.children place).count child = kinds.length
  nodup_iff : ∀ place a, analysis.hierarchy.graph.target? place = some (.unit a) →
    ((analysis.hierarchy.children place).Nodup ↔ ∀ b, b ≠ a → ∀ kind other,
      kind.edgeClass = .instantiates → other.edgeClass = .instantiates →
      store.InstanceBinds a kind b → store.InstanceBinds a other b → kind = other)
  drawn : ∀ place, ∃ subtrees,
    analysis.hierarchy.tree place = (.root, place) :: subtrees.flatten ∧
    List.Forall₂ Hierarchy.IsSubtree (analysis.hierarchy.children place) subtrees ∧
    analysis.hierarchy.treeView place = analysis.hierarchy.line (.root, place) ++
      String.join (subtrees.map fun entries =>
        String.join (entries.map analysis.hierarchy.line))

theorem Analysis.Faithful.childrenExact {analysis : Analysis} {store : Store}
    (h : analysis.Faithful store) : analysis.ChildrenExact store := by
  refine ⟨fun _ _ => h.units_of_mem_children, fun _ _ _ _ => h.exists_kinds_below,
    fun _ _ => h.nodup_children_iff, fun place => ?_⟩
  obtain ⟨subtrees, ht, hs⟩ := Hierarchy.exists_subtrees h.hierarchyDerived.closed place
  exact ⟨subtrees, ht, hs, Hierarchy.treeView_eq ht⟩

/-- After an analysis of a reachable design a unit is a child once for each kind of instance that
binds to it, and is drawn as often. -/
theorem Design.Reachable.children_exact {design : Design} (h : design.Reachable) :
    ∃ analysis, design.analyze.design.analysis = some analysis ∧
      analysis.ChildrenExact design.analyze.design.store :=
  ⟨_, rfl, h.grounded.built.registry.faithful_analyze.childrenExact⟩

/-- An entity with two architectures. One of them has two instances of one kind, the other has an
instance of the entity by name and one of a component. -/
def Design.belfryUnits : List DesignUnit :=
  let bell : Identifier := ⟨"bell", by decide +kernel⟩
  let belfry : Identifier := ⟨"belfry", by decide +kernel⟩
  let unlabelled (unit : InstantiatedUnit) : ConcStmt := .mk none (.instantiation { unit })
  [{ ident := bell, body := .entity none none [] [] },
    { ident := ⟨"bronze", by decide +kernel⟩, body := .architecture { item := bell } [] [] },
    { ident := belfry, body := .entity none none [] [] },
    { ident := ⟨"peal", by decide +kernel⟩
      body := .architecture { item := belfry } []
        [unlabelled (.component (.simple bell)), unlabelled (.component (.simple bell))] },
    { ident := ⟨"chime", by decide +kernel⟩
      body := .architecture { item := belfry } []
        [unlabelled (.entity (.simple bell) none), unlabelled (.component (.simple bell))] }]

def Design.belfries : Design :=
  let design := ((withConfig {}).createLibrary "abbey").design
  (design.addDocument { units := belfryUnits } ⟨0⟩).design

theorem Design.belfries_reachable : belfries.Reachable :=
  .addDocument _ _ (.createLibrary _ (.start _))

theorem Design.belfries_children : belfries.Reachable ∧
    (belfries.analyze.design.analysis.map fun analysis =>
      analysis.hierarchy.graph.vertexIds.map fun place =>
        (analysis.hierarchy.graph.keyOf? place, analysis.hierarchy.children place)) =
      some [(some "abbey.bell", [1]), (some "abbey.bell(bronze)", []),
        (some "abbey.belfry", [3, 4]), (some "abbey.belfry(peal)", [0]),
        (some "abbey.belfry(chime)", [0, 0])] ∧
    ∃ analysis, belfries.analyze.design.analysis = some analysis ∧
      analysis.ChildrenExact belfries.analyze.design.store :=
  ⟨belfries_reachable, by decide +kernel, belfries_reachable.children_exact⟩

/-- A unit of which an architecture has instances of two kinds is there twice. -/
theorem Design.belfries_repeated_child : belfries.Reachable ∧
    ∃ analysis, belfries.analyze.design.analysis = some analysis ∧
      ∃ place, ¬ (analysis.hierarchy.children place).Nodup :=
  ⟨belfries_reachable, _, rfl, 4, by decide +kernel⟩

end Vhdl
