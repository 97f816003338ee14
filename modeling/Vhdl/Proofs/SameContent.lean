import Vhdl.Proofs.Denotation
import Vhdl.Proofs.Dependences

/-! # Stores with the same content

Two stores may hold the same units in the same libraries, but in another order and under other
handles. Libraries then correspond by their identifiers, and units by their libraries and keys. An
analysis respects this correspondence, so the two dependency graphs have the same keys, and the same
units are roots or unused.
-/

namespace Vhdl

theorem rel_of_forall {α β : Type} {R : α → β → Prop} {x : Option α} {y : Option β}
    (hx : ∀ a, x = some a → ∃ b, y = some b ∧ R a b) (hy : ∀ b, y = some b → ∃ a, x = some a) :
    Option.Rel R x y := by
  cases x with
  | none =>
    cases y with
    | none => exact .none
    | some b => cases (hy b rfl).choose_spec
  | some a =>
    obtain ⟨b, rfl, hab⟩ := hx a rfl
    exact .some hab

theorem exists_mem_of_forall₂ {α β : Type} {R : α → β → Prop} {xs : List α} {ys : List β}
    (h : List.Forall₂ R xs ys) {x : α} (hx : x ∈ xs) : ∃ y ∈ ys, R x y := by
  obtain ⟨i, hi⟩ := List.mem_iff_getElem?.mp hx
  obtain ⟨hlt, rfl⟩ := List.getElem?_eq_some_iff.mp hi
  have hlt' : i < ys.length := h.length_eq ▸ hlt
  exact ⟨ys[i], List.getElem_mem hlt', h.get hlt hlt'⟩

namespace Store

section Registry

variable {store : Store} {library : Library} {id : UnitId} {unit : DesignUnit}

theorem Registry.exists_registered? (h : store.Registry) (hm : library ∈ store.libraries)
    (hu : store.unitIn? library.id id = some unit) :
    ∃ document, store.registered? id = some ⟨id, library, document, unit⟩ := by
  obtain ⟨document, hd, _⟩ := unitIn?_eq_some_iff.mp hu
  have hr : store.registered? (RegisteredUnit.mk id library document unit).id = some _ :=
    h.registered?_iff.mpr ⟨hm, hd, hu⟩
  exact ⟨document, hr⟩

theorem Registry.exists_library (h : store.Registry) (hu : store.unit? id = some unit) :
    ∃ library ∈ store.libraries, store.unitIn? library.id id = some unit := by
  obtain ⟨_, library, hl, hin⟩ := h.exists_unitIn? hu
  obtain ⟨hm, rfl⟩ := h.library?_iff.mp hl
  exact ⟨library, hm, hin⟩

theorem Registry.id_unique (h : store.Registry) (hm : library ∈ store.libraries) {other : UnitId}
    (hu : store.unitIn? library.id id = some unit)
    (ho : store.unitIn? library.id other = some unit) : id = other := by
  have hg := (h.holds_mem hm).get?_iff unit.key
  exact Option.some.inj (((hg id).mpr ⟨unit, hu, rfl⟩).symm.trans ((hg other).mpr ⟨unit, ho, rfl⟩))

theorem Registry.findLibrary?_iff (h : store.Registry) {ident : Identifier} {owner : LibraryId} :
    store.findLibrary? ident = some owner ↔ ∃ library ∈ store.libraries,
      library.id = owner ∧ library.ident.normalized = ident.normalized := by
  rw [findLibrary?, h.names]
  simp only [h.library?_iff, and_assoc]

theorem Registry.unitIn?_analyze (h : store.Registry) (hm : library ∈ store.libraries)
    (hu : store.unitIn? library.id id = some unit) :
    store.analyze.store.unitIn? library.id id = some (store.linkUnit library id unit).unit := by
  have hf := store.unitIn?_fillSlots store.linkUnits library.id id
  rwa [hu, Option.map_some, h.filled_linkUnits_eq hm hu] at hf

theorem Registry.visibilityOf_eq (h : store.Registry) (hm : library ∈ store.libraries)
    (hu : store.unitIn? library.id id = some unit) :
    store.visibilityOf id = (store.linkUnit library id unit).visibility := by
  rw [visibilityOf, h.find?_linkUnits hm hu]
  rfl

theorem dependency_analyze (store : Store) : store.analyze.analysis.dependency =
    (store.analyze.store.dependencies store.visibilityOf).graph := by
  unfold analyze
  rfl

theorem hierarchy_analyze (store : Store) : store.analyze.analysis.hierarchy =
    .ofDependency store.analyze.analysis.dependency := by
  unfold analyze
  rfl

theorem Registry.keyed_analyze (h : store.Registry) : store.analyze.analysis.dependency.Keyed := by
  rw [dependency_analyze]
  exact h.analyze.keyed_dependencies _

theorem unitIds_analyze (store : Store) : store.analyze.store.unitIds = store.unitIds := by
  rw [← unitIds_clearTargets, ← store.unitIds_clearTargets, ← store.clearTargets_fillSlots]
  rfl

end Registry

def Contains (store : Store) (ident : Identifier) (unit : DesignUnit) : Prop :=
  ∃ library ∈ store.libraries, library.ident = ident ∧
    ∃ id, store.unitIn? library.id id = some unit

/-- The same units in libraries of the same names, in whatever order. -/
structure SameContent (s t : Store) : Prop where
  left : s.Registry
  right : t.Registry
  config : s.config = t.config
  count : s.unitIds.length = t.unitIds.length
  libraries : ∀ ident, ident ∈ s.libraries.map Library.ident ↔ ident ∈ t.libraries.map Library.ident
  units : ∀ ident unit, s.Contains ident unit ↔ t.Contains ident unit

namespace SameContent

variable {s t : Store} {l m : Library} {a b : UnitId} {u : DesignUnit}

theorem symm (h : s.SameContent t) : t.SameContent s where
  left := h.right
  right := h.left
  config := h.config.symm
  count := h.count.symm
  libraries ident := (h.libraries ident).symm
  units ident unit := (h.units ident unit).symm

theorem exists_library (h : s.SameContent t) (hl : l ∈ s.libraries) :
    ∃ m ∈ t.libraries, l.ident = m.ident := by
  obtain ⟨m, hm, he⟩ := List.mem_map.mp ((h.libraries _).mp (List.mem_map_of_mem hl))
  exact ⟨m, hm, he.symm⟩

theorem exists_unit (h : s.SameContent t) (hl : l ∈ s.libraries) (hm : m ∈ t.libraries)
    (hi : l.ident = m.ident) (hu : s.unitIn? l.id a = some u) :
    ∃ b, t.unitIn? m.id b = some u := by
  obtain ⟨other, ho, he, b, hb⟩ := (h.units _ _).mp ⟨l, hl, hi, a, hu⟩
  obtain rfl := h.right.library_eq_of_name ho hm (congrArg Identifier.normalized he)
  exact ⟨b, hb⟩

/-- Libraries with one identifier, and equal units of such libraries. -/
def pairing (h : s.SameContent t) : Pairing where
  libraries a b := ∃ l ∈ s.libraries, ∃ m ∈ t.libraries, l.ident = m.ident ∧ l.id = a ∧ m.id = b
  units a b := ∃ l ∈ s.libraries, ∃ m ∈ t.libraries, l.ident = m.ident ∧
    ∃ u, s.unitIn? l.id a = some u ∧ t.unitIn? m.id b = some u
  libraries_unique := by
    constructor
    · rintro _ _ _ ⟨l, hl, m, hm, hi, rfl, rfl⟩ ⟨l', hl', m', hm', hi', rfl, he⟩
      obtain rfl := h.right.library_eq_of_id hm' hm he
      rw [h.left.library_eq_of_name hl hl' (by rw [hi, hi'])]
    · rintro _ _ _ ⟨l, hl, m, hm, hi, rfl, rfl⟩ ⟨l', hl', m', hm', hi', he, rfl⟩
      obtain rfl := h.left.library_eq_of_id hl' hl he
      rw [h.right.library_eq_of_name hm hm' (by rw [← hi, ← hi'])]
  units_unique := by
    constructor
    · rintro a c b ⟨l, hl, m, hm, hi, u, hu, hv⟩ ⟨l', hl', m', hm', hi', u', hu', hv'⟩
      obtain ⟨rfl, rfl⟩ := h.right.library_unique hm hm' hv hv'
      obtain rfl := h.left.library_eq_of_name hl hl' (by rw [hi, hi'])
      exact h.left.id_unique hl hu hu'
    · rintro a b c ⟨l, hl, m, hm, hi, u, hu, hv⟩ ⟨l', hl', m', hm', hi', u', hu', hv'⟩
      obtain ⟨rfl, rfl⟩ := h.left.library_unique hl hl' hu hu'
      obtain rfl := h.right.library_eq_of_name hm hm' (by rw [← hi, ← hi'])
      exact h.right.id_unique hm hv hv'

theorem get?_of_get? (h : s.SameContent t) (hl : l ∈ s.libraries) (hm : m ∈ t.libraries)
    (hi : l.ident = m.ident) {key : UnitKey} (hg : l.get? key = some a) :
    ∃ b, m.get? key = some b ∧ h.pairing.units a b := by
  obtain ⟨u, hu, hk⟩ := ((h.left.holds_mem hl).get?_iff key a).mp hg
  obtain ⟨b, hb⟩ := h.exists_unit hl hm hi hu
  exact ⟨b, ((h.right.holds_mem hm).get?_iff key b).mpr ⟨u, hb, hk⟩, l, hl, m, hm, hi, u, hu, hb⟩

theorem library_alike (h : s.SameContent t) (hl : l ∈ s.libraries) (hm : m ∈ t.libraries)
    (hi : l.ident = m.ident) : l.Alike h.pairing m where
  id := ⟨l, hl, m, hm, hi, rfl, rfl⟩
  ident := hi
  get? _ := rel_of_forall (fun _ hg => h.get?_of_get? hl hm hi hg) fun _ hg =>
    (h.symm.get?_of_get? hm hl hi.symm hg).imp fun _ hx => hx.1

theorem findLibrary?_of_findLibrary? (h : s.SameContent t) {ident : Identifier} {a : LibraryId}
    (hf : s.findLibrary? ident = some a) :
    ∃ b, t.findLibrary? ident = some b ∧ h.pairing.libraries a b := by
  obtain ⟨l, hl, hid, hn⟩ := h.left.findLibrary?_iff.mp hf
  obtain ⟨m, hm, hi⟩ := h.exists_library hl
  exact ⟨m.id, h.right.findLibrary?_iff.mpr ⟨m, hm, rfl, by rw [← hi, hn]⟩, l, hl, m, hm, hi, hid,
    rfl⟩

theorem alike (h : s.SameContent t) : s.Alike h.pairing DesignUnit.SameItems t where
  config := h.config
  count := h.count
  findLibrary? _ := rel_of_forall (fun _ hf => h.findLibrary?_of_findLibrary? hf) fun _ hf =>
    (h.symm.findLibrary?_of_findLibrary? hf).imp fun _ hx => hx.1
  library? := by
    rintro _ _ ⟨l, hl, m, hm, hi, rfl, rfl⟩
    rw [h.left.library?_iff.mpr ⟨hl, rfl⟩, h.right.library?_iff.mpr ⟨hm, rfl⟩]
    exact .some (h.library_alike hl hm hi)
  unit? := by
    rintro a b ⟨l, hl, m, hm, hi, u, hu, hv⟩
    rw [unit?_of_unitIn? hu, unit?_of_unitIn? hv]
    exact .some (.refl u)
  registered? := by
    rintro a b ⟨l, hl, m, hm, hi, u, hu, hv⟩
    obtain ⟨_, hr⟩ := h.left.exists_registered? hl hu
    obtain ⟨_, hq⟩ := h.right.exists_registered? hm hv
    rw [hr, hq]
    exact .some ⟨h.library_alike hl hm hi, .refl u⟩

theorem linkUnit_alike (h : s.SameContent t) (hl : l ∈ s.libraries) (hm : m ∈ t.libraries)
    (hi : l.ident = m.ident) (hu : s.unitIn? l.id a = some u) (hv : t.unitIn? m.id b = some u) :
    (s.linkUnit l a u).Alike h.pairing (s.locationOf a = t.locationOf b) (t.linkUnit m b u) :=
  h.alike.linkUnit (h.library_alike hl hm hi) ⟨l, hl, m, hm, hi, u, hu, hv⟩ (.refl u)

theorem analyze_alike (h : s.SameContent t) : s.analyze.store.Alike h.pairing
    (DesignUnit.LinkedAlike (Option.Rel h.pairing.Targets)) t.analyze.store where
  config := h.config
  count := by rw [unitIds_analyze, unitIds_analyze, h.count]
  findLibrary? := h.alike.findLibrary?
  library? := h.alike.library?
  unit? := by
    rintro a b ⟨l, hl, m, hm, hi, u, hu, hv⟩
    rw [unit?_of_unitIn? (h.left.unitIn?_analyze hl hu),
      unit?_of_unitIn? (h.right.unitIn?_analyze hm hv)]
    exact .some (h.linkUnit_alike hl hm hi hu hv).unit
  registered? := by
    rintro a b ⟨l, hl, m, hm, hi, u, hu, hv⟩
    obtain ⟨_, hr⟩ := h.left.analyze.exists_registered? hl (h.left.unitIn?_analyze hl hu)
    obtain ⟨_, hq⟩ := h.right.analyze.exists_registered? hm (h.right.unitIn?_analyze hm hv)
    rw [hr, hq]
    exact .some ⟨h.library_alike hl hm hi, (h.linkUnit_alike hl hm hi hu hv).unit⟩

theorem visibilityOf_alike (h : s.SameContent t) (hab : h.pairing.units a b) :
    (s.visibilityOf a).Alike h.pairing (t.visibilityOf b) := by
  obtain ⟨l, hl, m, hm, hi, u, hu, hv⟩ := hab
  rw [h.left.visibilityOf_eq hl hu, h.right.visibilityOf_eq hm hv]
  exact (h.linkUnit_alike hl hm hi hu hv).visibility

structure Counterpart (p : Pairing) (r q : RegisteredUnit) : Prop where
  id : p.units r.id q.id
  library : r.library.Alike p q.library
  unit : r.unit.LinkedAlike (Option.Rel p.Targets) q.unit

theorem Counterpart.key {p : Pairing} {r q : RegisteredUnit} (h : Counterpart p r q) :
    r.key = q.key := by
  rw [RegisteredUnit.key, RegisteredUnit.key, h.library.ident, h.unit.key]

theorem exists_counterpart (h : s.SameContent t) {r : RegisteredUnit}
    (hr : s.analyze.store.registered? r.id = some r) :
    ∃ q, t.analyze.store.registered? q.id = some q ∧ Counterpart h.pairing r q := by
  obtain ⟨hl, _, hx⟩ := h.left.analyze.registered?_iff.mp hr
  have hf := s.unitIn?_fillSlots s.linkUnits r.library.id r.id
  obtain ⟨u, hu, _⟩ := Option.map_eq_some_iff.mp (hf.symm.trans hx)
  obtain ⟨m, hm, hi⟩ := h.exists_library hl
  obtain ⟨b, hv⟩ := h.exists_unit hl hm hi hu
  obtain ⟨document, hq⟩ := h.right.analyze.exists_registered? hm (h.right.unitIn?_analyze hm hv)
  have hab : h.pairing.units r.id b := ⟨r.library, hl, m, hm, hi, u, hu, hv⟩
  have halike := h.analyze_alike.registered? r.id b hab
  rw [hr, hq] at halike
  obtain ⟨hlibrary, hunit⟩ := Option.rel_some_some.mp halike
  exact ⟨_, hq, hab, hlibrary, hunit⟩

theorem mem_items (h : s.SameContent t) {x y : Target} (hxy : h.pairing.Targets x y) {key : String}
    (hk : (key, x) ∈ s.analyze.store.items) : (key, y) ∈ t.analyze.store.items := by
  rw [mem_items_iff] at hk ⊢
  rcases hk with ⟨l, hl, he⟩ | ⟨r, hr, he⟩ <;> obtain ⟨rfl, rfl⟩ := Prod.mk.inj he <;>
    cases hxy with
    | _ hab => ?_
  · obtain ⟨m, hm, hi⟩ := h.exists_library hl
    have hid := h.pairing.libraries_unique.2 hab ⟨l, hl, m, hm, hi, rfl, rfl⟩
    exact .inl ⟨m, hm, by rw [hi, hid]⟩
  · obtain ⟨q, hq, hc⟩ := h.exists_counterpart hr
    have hid := h.pairing.units_unique.2 hab hc.id
    exact .inr ⟨q, hq, by rw [hc.key, hid]⟩

theorem mem_edgeKeys (h : s.SameContent t) {edge : String × String × EdgeKind}
    (he : edge ∈ s.analyze.analysis.dependency.edgeKeys) :
    edge ∈ t.analyze.analysis.dependency.edgeKeys := by
  obtain ⟨source, target, kind⟩ := edge
  rw [dependency_analyze, h.left.analyze.mem_edgeKeys_iff] at he
  rw [dependency_analyze, h.right.analyze.mem_edgeKeys_iff]
  obtain ⟨r, hr, rfl, d, hd, rfl, hne, hk⟩ := he
  obtain ⟨q, hq, hc⟩ := h.exists_counterpart hr
  obtain ⟨e, he, hde⟩ := exists_mem_of_forall₂
    (h.analyze_alike.dependencesOf (h.visibilityOf_alike hc.id) hc.library hc.unit) hd
  refine ⟨q, hq, hc.key.symm, e, he, hde.kind.symm, fun hself => ?_, h.mem_items hde.target hk⟩
  have ht := hde.target
  rw [hself] at ht
  generalize d.target = x at ht hne
  cases ht with
  | unit hab => exact hne (congrArg Target.unit (h.pairing.units_unique.1 hab hc.id))

theorem mem_vertexKinds (h : s.SameContent t) {entry : String × VertexKind × Bool}
    (he : entry ∈ s.analyze.analysis.dependency.vertexKinds) :
    entry ∈ t.analyze.analysis.dependency.vertexKinds := by
  obtain ⟨key, kind, predefined⟩ := entry
  rw [dependency_analyze, h.left.analyze.mem_vertexKinds_iff] at he
  rw [dependency_analyze, h.right.analyze.mem_vertexKinds_iff, ← h.analyze_alike.config]
  rcases he with ⟨l, hl, rfl, rfl, rfl⟩ | ⟨r, hr, rfl, rfl, rfl⟩
  · obtain ⟨m, hm, hi⟩ := h.exists_library hl
    exact .inl ⟨m, hm, by rw [hi], rfl, by rw [Library.name, hi]; rfl⟩
  · obtain ⟨q, hq, hc⟩ := h.exists_counterpart hr
    exact .inr ⟨q, hq, hc.key, by rw [hc.unit.kind], by rw [Library.name, hc.library.ident]; rfl⟩

/-- An analysis gives graphs with the same keys. -/
theorem sameKeys (h : s.SameContent t) :
    s.analyze.analysis.dependency.SameKeys t.analyze.analysis.dependency where
  vertices _ := ⟨h.mem_vertexKinds, h.symm.mem_vertexKinds⟩
  edges _ := ⟨h.mem_edgeKeys, h.symm.mem_edgeKeys⟩

end SameContent

def keysOf (store : Store) (ids : List UnitId) : List String :=
  (ids.filterMap store.registered?).map RegisteredUnit.key

theorem Registry.mem_keysOf_unusedUnits_iff {store : Store} (h : store.Registry)
    {analysis : Analysis} {visibility : UnitId → Visibility}
    (hd : analysis.dependency = (store.dependencies visibility).graph)
    (hh : analysis.hierarchy = .ofDependency analysis.dependency) (key : String) :
    key ∈ store.keysOf analysis.unusedUnits ↔
      (∃ kind, (key, .unit kind, false) ∈ analysis.dependency.vertexKinds) ∧
        ¬ analysis.dependency.UsedKey key := by
  have hkeyed : analysis.dependency.Keyed := hd ▸ h.keyed_dependencies visibility
  have hv : analysis.dependency.vertices = store.vertices :=
    hd ▸ h.vertices_dependencies visibility
  have hused : ∀ {id : Nat} {key : String} {vertex : UnitVertex},
      analysis.dependency.vertices[id]? = some (key, vertex) →
        (id ∈ analysis.usedVertices ↔ analysis.dependency.UsedKey key) := fun hx =>
    Analysis.mem_usedVertices_iff hkeyed hh (DependencyGraph.keyOf?_of_vertex? hx)
  have hentry : ∀ {id : Nat} {key : String} {vertex : UnitVertex},
      analysis.dependency.vertices[id]? = some (key, vertex) →
        (∃ library ∈ store.libraries, (key, vertex) =
          (library.ident.normalized, library.vertex store.config)) ∨
        ∃ registered, store.registered? registered.id = some registered ∧ (key, vertex) =
          (registered.key,
            registered.vertex (store.config.isPredefined registered.library.name)) := fun hx =>
    h.mem_vertices.mp (List.mem_of_getElem? (hv ▸ hx))
  simp only [keysOf, List.mem_map, List.mem_filterMap, Analysis.mem_unusedUnits_iff]
  constructor
  · rintro ⟨registered, ⟨unit, ⟨id, other, vertex, hx, hp, hn, hu⟩, hr⟩, rfl⟩
    rcases hentry hx with ⟨library, _, he⟩ | ⟨found, hf, he⟩ <;> obtain ⟨rfl, rfl⟩ := Prod.mk.inj he
    · cases hu
    · cases hu
      obtain rfl := Option.some.inj (hf.symm.trans hr)
      exact ⟨⟨_, DependencyGraph.mem_vertexKinds_iff.mpr ⟨id, _, hx, rfl, hp⟩⟩,
        fun hk => hn ((hused hx).mpr hk)⟩
  · rintro ⟨⟨kind, hk⟩, hn⟩
    obtain ⟨id, vertex, hx, hkind, hp⟩ := DependencyGraph.mem_vertexKinds_iff.mp hk
    rcases hentry hx with ⟨library, _, he⟩ | ⟨found, hf, he⟩ <;> obtain ⟨rfl, rfl⟩ := Prod.mk.inj he
    · cases hkind
    · exact ⟨found, ⟨found.id, ⟨id, _, _, hx, hp, fun hm => hn ((hused hx).mp hm), rfl⟩, hf⟩, rfl⟩

end Store

/-- Both designs are analyzed. The dependency graphs have the same vertices and edges, and the same
units are roots and are unused, all of them told by their keys. -/
def Design.Agrees (d e : Design) : Prop :=
  ∃ x y, d.analysis = some x ∧ e.analysis = some y ∧ x.dependency.SameKeys y.dependency ∧
    (∀ key, key ∈ x.hierarchy.rootKeys ↔ key ∈ y.hierarchy.rootKeys) ∧
    ∀ key, key ∈ d.store.keysOf x.unusedUnits ↔ key ∈ e.store.keysOf y.unusedUnits

theorem Design.design_analyze (design : Design) : design.analyze.design =
    ⟨design.store.analyze.store, some design.store.analyze.analysis⟩ :=
  rfl

theorem Store.SameContent.agrees {d e : Design} (h : d.store.SameContent e.store) :
    d.analyze.design.Agrees e.analyze.design := by
  rw [d.design_analyze, e.design_analyze]
  refine ⟨_, _, rfl, rfl, h.sameKeys, fun key => ?_, fun key => ?_⟩
  · rw [hierarchy_analyze, hierarchy_analyze, h.left.keyed_analyze.mem_rootKeys_iff,
      h.right.keyed_analyze.mem_rootKeys_iff, h.sameKeys.rootKey_iff]
  · rw [h.left.analyze.mem_keysOf_unusedUnits_iff d.store.dependency_analyze
        d.store.hierarchy_analyze,
      h.right.analyze.mem_keysOf_unusedUnits_iff e.store.dependency_analyze
        e.store.hierarchy_analyze, h.sameKeys.usedKey_iff]
    simp only [h.sameKeys.vertices]

end Vhdl
