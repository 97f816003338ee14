import Vhdl.Proofs.Consistency
import Vhdl.Proofs.Diagnostics
import Vhdl.Proofs.Spelling

/-! # Vertices of the dependency graph

The libraries and units of a store have distinct keys. No two vertices therefore collide while the
graph is built, and each library and each unit gets one vertex.
-/

namespace Vhdl

theorem nodup_eraseDups {α : Type} [DecidableEq α] : (xs : List α) → xs.eraseDups.Nodup
  | [] => List.nodup_nil
  | x :: xs => by
    rw [List.eraseDups_cons, List.nodup_cons]
    exact ⟨by simp, nodup_eraseDups _⟩
termination_by xs => xs.length
decreasing_by exact Nat.lt_succ_of_le (List.length_filter_le _ _)

namespace Graph

variable {κ ν ε : Type} {graph : Graph κ ν ε} {key : κ}

theorem vertexId?_eq_none_iff [DecidableEq κ] :
    graph.vertexId? key = none ↔ key ∉ graph.vertices.map Prod.fst := by
  simp only [vertexId?, List.findIdx?_eq_none_iff, decide_eq_false_iff_not, List.mem_map, not_exists,
    not_and]

theorem vertices_addEdge [DecidableEq ε] (graph : Graph κ ν ε) (edge : Edge ε) :
    (graph.addEdge edge).1.vertices = graph.vertices := by
  unfold addEdge
  split
  · rfl
  · split <;> rfl

end Graph

namespace DependencyGraph

theorem vertices_link (graph : DependencyGraph) (source : Nat) (target : Target)
    (kind : EdgeKind) : (graph.link source target kind).vertices = graph.vertices := by
  unfold link
  split
  · exact Graph.vertices_addEdge ..
  · rfl

theorem vertices_addDependences (graph : DependencyGraph) (dependences : List (Nat × Dependence)) :
    (graph.addDependences dependences).vertices = graph.vertices := by
  unfold addDependences
  induction dependences generalizing graph with
  | nil => rfl
  | cons entry rest ih => rw [List.foldl_cons, ih, vertices_link]

/-- The target has one vertex in the graph, and that vertex has the key. -/
def Represents (graph : DependencyGraph) (key : String) (target : Target) : Prop :=
  ∃ id, graph.keyOf? id = some key ∧
    ∀ other vertex, graph.label? other = some vertex → (vertex.target = target ↔ other = id)

end DependencyGraph

namespace Store

variable {store : Store}

theorem foldl_addVertex (entries : List (String × UnitVertex)) (graph : DependencyGraph)
    (collisions : List Diagnostic)
    (h : ((graph.vertices ++ entries).map Prod.fst).Nodup) :
    entries.foldl store.addVertex (graph, collisions) =
      ({ graph with vertices := graph.vertices ++ entries }, collisions) := by
  induction entries generalizing graph with
  | nil => simp
  | cons entry rest ih =>
    have hn : graph.vertexId? entry.1 = none := by
      rw [Graph.vertexId?_eq_none_iff]
      intro hm
      rw [List.map_append, List.nodup_append] at h
      exact h.2.2 _ hm _ (by simp) rfl
    have hs : store.addVertex (graph, collisions) entry =
        ({ graph with vertices := graph.vertices ++ [entry] }, collisions) := by
      simp only [addVertex, Graph.addVertex, hn]
    rw [List.foldl_cons, hs, ih _ (by simpa using h), List.append_assoc]
    rfl

def keys (store : Store) : List String :=
  store.libraries.map (·.ident.normalized) ++ (store.units .all).map RegisteredUnit.key

def items (store : Store) : List (String × Target) :=
  store.libraries.map (fun library => (library.ident.normalized, .library library.id)) ++
    (store.units .all).map fun registered => (registered.key, .unit registered.id)

theorem map_items (store : Store) : store.items.map Prod.fst = store.keys := by
  rw [items, List.map_append, List.map_map, List.map_map]
  rfl

theorem units_all (store : Store) : store.units .all = store.unitIds.filterMap store.registered? :=
  List.filter_eq_self.mpr fun _ _ => rfl

theorem mem_units_all_iff {registered : RegisteredUnit} :
    registered ∈ store.units .all ↔ store.registered? registered.id = some registered := by
  rw [units_all, List.mem_filterMap]
  constructor
  · rintro ⟨id, _, hr⟩
    rwa [(registered?_eq_some_iff.mp hr).1]
  · intro hr
    refine ⟨_, mem_unitIds_iff.mpr ?_, hr⟩
    obtain ⟨_, hd, _, hu⟩ := registered?_eq_some_iff.mp hr
    exact ⟨_, Option.bind_eq_some_iff.mpr ⟨_, hd, hu⟩⟩

theorem mem_items_iff {item : String × Target} : item ∈ store.items ↔
    (∃ library ∈ store.libraries, item = (library.ident.normalized, .library library.id)) ∨
      ∃ registered, store.registered? registered.id = some registered ∧
        item = (registered.key, .unit registered.id) := by
  simp only [items, List.mem_append, List.mem_map, mem_units_all_iff, eq_comm]

theorem mem_vertexOrder_iff {library : Library} {id : UnitId}
    (h : library.Holds (store.unitIn? library.id)) :
    id ∈ library.vertexOrder store ↔ ∃ unit, store.unitIn? library.id id = some unit := by
  constructor
  · intro hm
    apply h.of_stores
    simp only [Library.vertexOrder, List.mem_append, List.mem_flatMap, List.mem_cons] at hm
    rcases hm with ((((hm | hm) | ⟨entity, he, rfl | hm⟩) | hm) | hm) | hm
    · exact .inl ⟨_, hm⟩
    · exact .inl ⟨_, hm⟩
    · exact .inl ⟨_, he⟩
    · cases hu : store.unit? entity with
      | none => simp [hu] at hm
      | some unit =>
        rw [hu] at hm
        exact .inr (.inr ⟨_, hm⟩)
    · exact .inl ⟨_, hm⟩
    · exact .inl ⟨_, hm⟩
    · exact .inl ⟨_, hm⟩
  · rintro ⟨unit, hu⟩
    have hm := (h.mem_kind unit.kind id).mpr ⟨unit, hu, rfl⟩
    simp only [Library.vertexOrder, List.mem_append, List.mem_flatMap, List.mem_cons]
    cases hk : unit.kind with
    | context => exact .inl (.inl (.inl (.inl (.inl (hk ▸ hm)))))
    | configuration => exact .inl (.inl (.inl (.inl (.inr (hk ▸ hm)))))
    | entity => exact .inl (.inl (.inl (.inr ⟨id, hk ▸ hm, .inl rfl⟩)))
    | package => exact .inl (.inl (.inr (hk ▸ hm)))
    | packageBody => exact .inl (.inr (hk ▸ hm))
    | architecture => exact .inr (hk ▸ hm)

theorem Registry.registered?_iff (h : store.Registry) {registered : RegisteredUnit} :
    store.registered? registered.id = some registered ↔
      registered.library ∈ store.libraries ∧
        store.document? registered.id.document = some registered.document ∧
        store.unitIn? registered.library.id registered.id = some registered.unit := by
  rw [registered?_eq_some_iff]
  constructor
  · rintro ⟨_, hd, ⟨owner, hw, hl⟩, hu⟩
    obtain ⟨hm, rfl⟩ := h.library?_iff.mp hl
    exact ⟨hm, hd, unitIn?_eq_some_iff.mpr ⟨_, hd, hw, hu⟩⟩
  · rintro ⟨hm, hd, hu⟩
    obtain ⟨_, hd', hw, hu⟩ := unitIn?_eq_some_iff.mp hu
    cases hd.symm.trans hd'
    exact ⟨rfl, hd, ⟨_, hw, h.library?_iff.mpr ⟨hm, rfl⟩⟩, hu⟩

def libraryItems (store : Store) (library : Library) : List (String × Target) :=
  (library.ident.normalized, .library library.id) ::
    ((library.vertexOrder store).eraseDups.filterMap store.registered?).map fun registered =>
      (registered.key, .unit registered.id)

theorem map_vertices (store : Store) :
    store.vertices.map (fun entry => (entry.1, entry.2.target)) =
      store.libraries.flatMap store.libraryItems := by
  simp only [vertices, List.map_flatMap, List.map_cons, List.map_map]
  rfl

theorem Registry.mem_libraryItems_iff (h : store.Registry) {library : Library}
    (hm : library ∈ store.libraries) {item : String × Target} : item ∈ store.libraryItems library ↔
      item = (library.ident.normalized, .library library.id) ∨
        ∃ registered, store.registered? registered.id = some registered ∧
          registered.library = library ∧ item = (registered.key, .unit registered.id) := by
  simp only [libraryItems, List.mem_cons, List.mem_map, List.mem_filterMap, List.mem_eraseDups,
    mem_vertexOrder_iff (h.holds_mem hm)]
  refine or_congr_right ⟨?_, ?_⟩
  · rintro ⟨registered, ⟨id, ⟨unit, hu⟩, hr⟩, rfl⟩
    obtain rfl := (registered?_eq_some_iff.mp hr).1
    obtain ⟨hl, _, hu'⟩ := h.registered?_iff.mp hr
    exact ⟨registered, hr, (h.library_unique hl hm hu' hu).1, rfl⟩
  · rintro ⟨registered, hr, rfl, rfl⟩
    exact ⟨registered, ⟨_, ⟨_, (h.registered?_iff.mp hr).2.2⟩, hr⟩, rfl⟩

theorem nodup_targets_libraryItems (store : Store) (library : Library) :
    ((store.libraryItems library).map Prod.snd).Nodup := by
  simp only [libraryItems, List.map_cons, List.nodup_cons, List.map_filterMap, Option.map_map]
  refine ⟨by simp [List.mem_filterMap], (nodup_eraseDups _).filterMap ?_⟩
  intro a b target ha hb
  simp only [Option.mem_def, Option.map_eq_some_iff, Function.comp_apply] at ha hb
  obtain ⟨_, hr, rfl⟩ := ha
  obtain ⟨_, hr', he⟩ := hb
  rw [(registered?_eq_some_iff.mp hr).1, (registered?_eq_some_iff.mp hr').1] at he
  exact (Target.unit.inj he).symm

theorem Registry.nodup_targets (h : store.Registry) :
    (store.vertices.map (·.2.target)).Nodup := by
  have hv : store.vertices.map (·.2.target) =
      store.libraries.flatMap fun library => (store.libraryItems library).map Prod.snd := by
    rw [← List.map_flatMap, ← map_vertices, List.map_map]
    rfl
  rw [hv]
  refine List.nodup_flatMap.mpr ⟨fun library _ => store.nodup_targets_libraryItems library, ?_⟩
  refine h.pairwise_id.imp_of_mem fun {a b} ha hb hne target hx hy => ?_
  obtain ⟨x, hi, rfl⟩ := List.mem_map.mp hx
  obtain ⟨y, hj, he⟩ := List.mem_map.mp hy
  rcases (h.mem_libraryItems_iff ha).mp hi with rfl | ⟨r, hr, rfl, rfl⟩ <;>
    rcases (h.mem_libraryItems_iff hb).mp hj with rfl | ⟨s, hs, rfl, rfl⟩
  · exact hne (Target.library.inj he).symm
  · cases he
  · cases he
  · have hu := (h.registered?_iff.mp hr).2.2
    have hv := (h.registered?_iff.mp hs).2.2
    rw [Target.unit.inj he] at hv
    exact hne (unitIn?_unique hu hv).1

theorem Registry.mem_vertices_iff (h : store.Registry) {item : String × Target} :
    item ∈ store.vertices.map (fun entry => (entry.1, entry.2.target)) ↔ item ∈ store.items := by
  rw [map_vertices, List.mem_flatMap, mem_items_iff]
  constructor
  · rintro ⟨library, hm, hi⟩
    rcases (h.mem_libraryItems_iff hm).mp hi with rfl | ⟨registered, hr, rfl, rfl⟩
    · exact .inl ⟨library, hm, rfl⟩
    · exact .inr ⟨registered, hr, rfl⟩
  · rintro (⟨library, hm, rfl⟩ | ⟨registered, hr, rfl⟩)
    · exact ⟨library, hm, (h.mem_libraryItems_iff hm).mpr (.inl rfl)⟩
    · have hm := (h.registered?_iff.mp hr).1
      exact ⟨_, hm, (h.mem_libraryItems_iff hm).mpr (.inr ⟨registered, hr, rfl, rfl⟩)⟩

theorem Registry.library_eq_of_name (h : store.Registry) {a b : Library} (ha : a ∈ store.libraries)
    (hb : b ∈ store.libraries) (he : a.ident.normalized = b.ident.normalized) : a = b := by
  have hx := (h.names _ a.id).mpr ⟨a, h.library?_iff.mpr ⟨ha, rfl⟩, rfl⟩
  have hy := (h.names _ b.id).mpr ⟨b, h.library?_iff.mpr ⟨hb, rfl⟩, rfl⟩
  rw [he] at hx
  exact h.library_eq_of_id ha hb (Option.some.inj (hx.symm.trans hy))

theorem Registry.registered_eq_of_key (h : store.Registry) {a b : RegisteredUnit}
    (ha : store.registered? a.id = some a) (hb : store.registered? b.id = some b)
    (he : a.key = b.key) : a = b := by
  obtain ⟨hl, _, hu⟩ := h.registered?_iff.mp ha
  obtain ⟨hm, _, hv⟩ := h.registered?_iff.mp hb
  obtain ⟨hn, hk⟩ := UnitKey.render_inj a.unit.named_key b.unit.named_key he
  rw [← h.library_eq_of_name hl hm hn] at hv
  have hx := ((h.holds_mem hl).get?_iff _ _).mpr ⟨_, hu, hk⟩
  have hy := ((h.holds_mem hl).get?_iff _ _).mpr ⟨_, hv, rfl⟩
  have hi : a.id = b.id := Option.some.inj (hx.symm.trans hy)
  rw [hi] at ha
  exact Option.some.inj (ha.symm.trans hb)

theorem Registry.item_eq_of_key (h : store.Registry) {a b : String × Target} (ha : a ∈ store.items)
    (hb : b ∈ store.items) (he : a.1 = b.1) : a = b := by
  rcases mem_items_iff.mp ha with ⟨l, hl, rfl⟩ | ⟨r, hr, rfl⟩ <;>
    rcases mem_items_iff.mp hb with ⟨m, hm, rfl⟩ | ⟨s, hs, rfl⟩
  · rw [h.library_eq_of_name hl hm he]
  · exact absurd he.symm (s.unit.key.render_ne _ _)
  · exact absurd he (r.unit.key.render_ne _ _)
  · rw [h.registered_eq_of_key hr hs he]

theorem nodup_units_all (store : Store) : (store.units .all).Nodup := by
  rw [units_all]
  refine store.nodup_unitIds.filterMap fun a b registered ha hb => ?_
  rw [← (registered?_eq_some_iff.mp ha).1, (registered?_eq_some_iff.mp hb).1]

theorem Registry.nodup_items (h : store.Registry) : store.items.Nodup := by
  refine List.nodup_append.mpr ⟨?_, ?_, ?_⟩
  · exact List.pairwise_map.mpr (h.pairwise_id.imp fun hne he =>
      hne (Target.library.inj (Prod.mk.inj he).2))
  · refine store.nodup_units_all.map_on fun a ha b hb he => ?_
    exact h.registered_eq_of_key (mem_units_all_iff.mp ha) (mem_units_all_iff.mp hb)
      (Prod.mk.inj he).1
  · rintro item hx _ hy rfl
    obtain ⟨_, _, rfl⟩ := List.mem_map.mp hx
    obtain ⟨_, _, he⟩ := List.mem_map.mp hy
    cases (Prod.mk.inj he).2

theorem Registry.nodup_keys (h : store.Registry) : store.keys.Nodup := by
  rw [← map_items]
  exact h.nodup_items.map_on fun _ ha _ hb he => h.item_eq_of_key ha hb he

theorem Registry.vertices_perm (h : store.Registry) :
    (store.vertices.map fun entry => (entry.1, entry.2.target)).Perm store.items := by
  refine (List.perm_ext_iff_of_nodup (List.Nodup.of_map Prod.snd ?_) h.nodup_items).mpr
    fun item => h.mem_vertices_iff
  rw [List.map_map]
  exact h.nodup_targets

/-- No two vertices collide. -/
theorem Registry.vertexGraph_eq (h : store.Registry) :
    store.vertexGraph = ({ vertices := store.vertices }, []) := by
  refine foldl_addVertex _ _ _ ?_
  have hp := h.vertices_perm.map Prod.fst
  rw [List.map_map, map_items] at hp
  exact hp.nodup_iff.mpr h.nodup_keys

theorem Registry.length_units_all (h : store.Registry) :
    (store.units .all).length = store.numUnits := by
  rw [units_all, h.numUnits_eq, List.filterMap_length_eq_length]
  intro id hm
  obtain ⟨unit, hu⟩ := mem_unitIds_iff.mp hm
  obtain ⟨document, hd, hu⟩ := Option.bind_eq_some_iff.mp hu
  obtain ⟨owner, library, hw, hl⟩ := h.owned document (List.mem_of_getElem? hd)
  have hr : store.registered? id = some ⟨id, library, document, unit⟩ :=
    registered?_eq_some_iff.mpr ⟨rfl, hd, ⟨owner, hw, hl⟩, hu⟩
  rw [hr]
  rfl

theorem Registry.length_vertices (h : store.Registry) :
    store.vertices.length = store.libraries.length + store.numUnits := by
  have hl := h.vertices_perm.length_eq
  rwa [List.length_map, items, List.length_append, List.length_map, List.length_map,
    h.length_units_all] at hl

theorem Registry.vertices_dependencies (h : store.Registry) (visibility : UnitId → Visibility) :
    (store.dependencies visibility).graph.vertices = store.vertices := by
  refine (DependencyGraph.vertices_addDependences _ _).trans ?_
  exact congrArg (·.1.vertices) h.vertexGraph_eq

theorem Registry.represents (h : store.Registry) {graph : DependencyGraph}
    (hv : graph.vertices = store.vertices) {item : String × Target} (hm : item ∈ store.items) :
    graph.Represents item.1 item.2 := by
  obtain ⟨entry, he, rfl⟩ := List.mem_map.mp (h.mem_vertices_iff.mpr hm)
  obtain ⟨id, hid⟩ := List.mem_iff_getElem?.mp he
  refine ⟨id, by simp [Graph.keyOf?, Graph.vertex?, hv, hid], fun other vertex ho => ?_⟩
  simp only [Graph.label?, Graph.vertex?, hv, Option.map_eq_some_iff] at ho
  obtain ⟨entry', ho, rfl⟩ := ho
  constructor
  · intro ht
    have hlt : other < (store.vertices.map (·.2.target)).length := by
      rw [List.length_map]
      exact (List.getElem?_eq_some_iff.mp ho).1
    refine (List.getElem?_inj hlt h.nodup_targets).mp ?_
    rw [List.getElem?_map, List.getElem?_map, ho, hid, Option.map_some, Option.map_some, ht]
  · rintro rfl
    rw [Option.some.inj (ho.symm.trans hid)]

theorem Registry.mem_items_analyze (h : store.Registry) {item : String × Target}
    (hm : item ∈ store.items) : item ∈ store.analyze.store.items := by
  rw [mem_items_iff] at hm ⊢
  rcases hm with hm | ⟨registered, hr, rfl⟩
  · exact .inl hm
  · obtain ⟨hl, hd, hu⟩ := h.registered?_iff.mp hr
    have hf := store.unitIn?_fillSlots store.linkUnits registered.library.id registered.id
    rw [hu, Option.map_some] at hf
    obtain ⟨document, hd', _⟩ := unitIn?_eq_some_iff.mp hf
    refine .inr ⟨⟨_, registered.library, document, filled store.linkUnits _ registered.unit⟩,
      h.analyze.registered?_iff.mpr ⟨hl, hd', hf⟩, ?_⟩
    rw [RegisteredUnit.key, RegisteredUnit.key, (filled_linkUnits (unit?_of_unitIn? hu)).2]

end Store

/-- Each library and each unit of the store has one vertex, there are no other vertices, and no
internal error was found. -/
structure Analysis.Represents (analysis : Analysis) (store : Store) : Prop where
  libraries : ∀ library ∈ store.libraries,
    analysis.dependency.Represents library.ident.normalized (.library library.id)
  units : ∀ registered ∈ store.units .all,
    analysis.dependency.Represents registered.key (.unit registered.id)
  numVertices : analysis.dependency.numVertices = store.libraries.length + store.numUnits
  noneInternal : ∀ diagnostic ∈ analysis.diagnostics, diagnostic.code ≠ .internal

theorem Store.Registry.analysis_represents {store : Store} (h : store.Registry) :
    store.analyze.analysis.Represents store := by
  have hv := h.analyze.vertices_dependencies fun id =>
    ((store.linkUnits.find? (·.id = id)).map LinkedUnit.visibility).getD {}
  refine ⟨fun library hm => ?_, fun registered hm => ?_, ?_, ?_⟩
  · exact h.analyze.represents hv
      (h.mem_items_analyze (List.mem_append_left _ (List.mem_map_of_mem hm)))
  · exact h.analyze.represents hv
      (h.mem_items_analyze (List.mem_append_right _ (List.mem_map_of_mem hm)))
  · exact (congrArg List.length hv).trans h.analyze.length_vertices
  · exact noneInternal_analyze (congrArg Prod.snd h.analyze.vertexGraph_eq)

/-- In every reachable design the keys of libraries and units are distinct, and its analysis has
one vertex for each of them. -/
theorem Design.Reachable.distinct_vertices {design : Design} (h : design.Reachable) :
    design.store.keys.Nodup ∧ ∃ analysis, design.analyze.design.analysis = some analysis ∧
      analysis.Represents design.store :=
  have hr := h.grounded.built.registry
  ⟨hr.nodup_keys, _, rfl, hr.analysis_represents⟩

/-- Units whose keys would be equal if identifiers had no backslashes. -/
def Design.lookalikes : Design :=
  let p : Identifier := ⟨"p", by decide +kernel⟩
  let entity (ident : Identifier) : DesignUnit := { ident, body := .entity none none [] [] }
  let units : List DesignUnit :=
    [entity p, { ident := ⟨"a", by decide +kernel⟩, body := .architecture { item := p } [] [] },
      { ident := p, body := .packageBody none [] }, entity ⟨"\\p(a)\\", by decide +kernel⟩,
      entity ⟨"\\p(body)\\", by decide +kernel⟩, entity ⟨"\\p\\\\(\\", by decide +kernel⟩]
  let design := ((withConfig {}).createLibrary "lib").design
  let design := (design.createLibrary "\\lib.p\\").design
  (design.addDocument { units } ⟨0⟩).design

theorem Design.lookalikes_distinct : lookalikes.Reachable ∧
    lookalikes.store.keys = ["lib", "\\lib.p\\", "lib.p", "lib.p(a)", "lib.p(body)",
      "lib.\\p(a)\\", "lib.\\p(body)\\", "lib.\\p\\\\(\\"] ∧
    lookalikes.store.keys.Nodup ∧ ∃ analysis, lookalikes.analyze.design.analysis = some analysis ∧
      analysis.Represents lookalikes.store :=
  have h : lookalikes.Reachable :=
    .addDocument _ _ (.createLibrary _ (.createLibrary _ (.start _)))
  ⟨h, by decide +kernel, h.distinct_vertices⟩

end Vhdl
