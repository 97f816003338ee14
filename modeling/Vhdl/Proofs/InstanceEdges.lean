import Vhdl.Proofs.Binding
import Vhdl.Proofs.Freshness
import Vhdl.Proofs.OpenSlots

/-! # Edges of instances

Every instance in an architecture makes an edge to each unit that it binds to, except that an
architecture has no edge to itself. There are no other edges of these kinds. An instance that binds
to nothing is reported once, at its architecture.
-/

namespace Vhdl

theorem DesignUnit.isLinked_of_mem_slots {unit : DesignUnit} {slot : EdgeKind × Option Target}
    (h : slot ∈ unit.slots) : slot.1.isLinked = true := by
  simp only [slots, List.mem_append, List.mem_map] at h
  rcases h with ((⟨_, _, rfl⟩ | ⟨_, _, rfl⟩) | ⟨_, _, rfl⟩) | hp
  iterate 3 rfl
  unfold UnitBody.primarySlot? at hp
  split at hp
  iterate 3
    obtain rfl := List.mem_singleton.mp hp
    rfl
  iterate 3 cases hp

def DependencyGraph.Connects (graph : DependencyGraph) (kind : EdgeKind) (a b : Target) : Prop :=
  ∃ source destination, graph.target? source = some a ∧ graph.target? destination = some b ∧
    ⟨source, destination, kind⟩ ∈ graph.edges

theorem DependencyGraph.map_units (graph : DependencyGraph) :
    graph.units.map Prod.snd = graph.numbered.filterMap (·.2.2.unit?) := by
  rw [units, List.map_filterMap]
  refine List.filterMap_congr fun entry _ => ?_
  rw [Option.map_map]
  exact Option.map_id'

namespace Store

/-- The unit is an architecture in which, at whatever depth, an instance binds to the target. -/
def InstanceBinds (store : Store) (id : UnitId) (kind : EdgeKind) (target : UnitId) : Prop :=
  store.HasUnit id fun own unit => unit.kind = .architecture ∧ ∃ label instantiation,
    (ConcStmt.mk label (.instantiation instantiation)).Within unit.statements ∧
      store.Binds own (store.visibilityOf id) instantiation.unit kind target

/-- The reports on the instances of an architecture: one for each instance that binds to nothing, in
order, and none for the others. -/
inductive ReportsUnbound (store : Store) (own : Library) (seen : Visibility) (location : Location) :
    List FoundInstance → List Diagnostic → Prop where
  | nil : ReportsUnbound store own seen location [] []
  | unbound {found : FoundInstance} {rest : List FoundInstance} {reports : List Diagnostic} :
      store.Unbound own seen found.statement.unit →
      ReportsUnbound store own seen location rest reports →
      ReportsUnbound store own seen location (found :: rest)
        (.ofCode location found.unboundMessage .unboundComponent :: reports)
  | bound {found : FoundInstance} {rest : List FoundInstance} {reports : List Diagnostic} :
      ¬ store.Unbound own seen found.statement.unit →
      ReportsUnbound store own seen location rest reports →
      ReportsUnbound store own seen location (found :: rest) reports

variable {store : Store} {graph : DependencyGraph} {registered : RegisteredUnit} {kind : EdgeKind}
  {target : Target}

theorem visibilityOf_analyze (store : Store) :
    store.analyze.store.visibilityOf = store.visibilityOf := by
  have hl : store.analyze.store.linkUnits = store.linkUnits :=
    calc store.analyze.store.linkUnits
      _ = store.analyze.store.clearTargets.linkUnits := (linkUnits_clearTargets _).symm
      _ = store.clearTargets.linkUnits := congrArg linkUnits store.clearTargets_fillSlots
      _ = store.linkUnits := store.linkUnits_clearTargets
  funext id
  rw [visibilityOf, visibilityOf, hl]

section Edges

theorem mem_dependencesOf_iff_bindings {seen : Visibility} (hk : kind.isLinked = false) :
    ⟨target, kind⟩ ∈ store.dependencesOf seen registered ↔
      ∃ binding ∈ store.bindings seen registered, ⟨target, kind⟩ ∈ binding.dependences := by
  rw [← List.mem_flatMap]
  refine List.mem_append.trans (or_iff_right fun hm => ?_)
  cases hk.symm.trans (DesignUnit.isLinked_of_mem_slots (DesignUnit.mem_slots_iff.mpr hm))

theorem Settled.exists_mem_bindings_iff (h : store.Settled)
    (hm : registered.library ∈ store.libraries) {seen : Visibility} :
    (∃ binding ∈ store.bindings seen registered, ⟨target, kind⟩ ∈ binding.dependences) ↔
      registered.unit.kind = .architecture ∧ ∃ id, target = .unit id ∧ ∃ label instantiation,
        (ConcStmt.mk label (.instantiation instantiation)).Within registered.unit.statements ∧
          store.Binds registered.library seen instantiation.unit kind id := by
  unfold bindings
  split
  · next ha =>
    let site : Site := ⟨store, registered.library, registered.location⟩
    have hb : ∀ found, ⟨target, kind⟩ ∈ (site.bind seen found).dependences ↔ ∃ id,
        target = .unit id ∧ store.Binds registered.library seen found.statement.unit kind id :=
      fun _ => Site.mem_bind_iff h hm
    simp only [List.mem_map, exists_exists_and_eq_and, site, hb, ha, true_and]
    rw [exists_mem_findInstances_iff (P := fun instantiation => ∃ id, target = .unit id ∧
      store.Binds registered.library seen instantiation.unit kind id)]
    constructor
    · rintro ⟨label, instantiation, hw, id, ht, hb⟩
      exact ⟨id, ht, label, instantiation, hw, hb⟩
    · rintro ⟨id, ht, label, instantiation, hw, hb⟩
      exact ⟨label, instantiation, hw, id, ht, hb⟩
  · next ha => simp [ha]

/-- The edges of instances join distinct vertices of units, of which the first is an architecture
with an instance that binds to the second. -/
theorem Settled.mem_instance_edges_iff (h : store.Settled)
    (hg : graph = (store.dependencies store.visibilityOf).graph) (hk : kind.isLinked = false)
    {source destination : Nat} : ⟨source, destination, kind⟩ ∈ graph.edges ↔
      source ≠ destination ∧ ∃ a b, graph.target? source = some (.unit a) ∧
        graph.target? destination = some (.unit b) ∧ store.InstanceBinds a kind b := by
  rw [h.registry.edge_iff_dependence _ hg]
  refine and_congr_right fun _ => ?_
  simp only [mem_dependencesOf_iff_bindings hk]
  constructor
  · rintro ⟨registered, target, hs, ht, hr, hd⟩
    obtain ⟨hm, _, hu⟩ := h.registry.registered?_iff.mp hr
    obtain ⟨ha, b, rfl, hi⟩ := (h.exists_mem_bindings_iff hm).mp hd
    exact ⟨registered.id, b, hs, ht, registered.library, hm, registered.unit, hu, ha, hi⟩
  · rintro ⟨a, b, hs, ht, library, hm, unit, hu, ha, hi⟩
    obtain ⟨document, hr⟩ := h.registry.exists_registered? hm hu
    exact ⟨⟨a, library, document, unit⟩, .unit b, hs, ht, hr,
      (h.exists_mem_bindings_iff hm).mpr ⟨ha, b, rfl, hi⟩⟩

end Edges

section Reports

variable {library : Library} {id : UnitId} {unit : DesignUnit}

theorem ReportsUnbound.location {seen : Visibility} {location : Location}
    {instances : List FoundInstance} {reports : List Diagnostic}
    (h : store.ReportsUnbound library seen location instances reports) :
    ∀ diagnostic ∈ reports, diagnostic.location = location := by
  induction h with
  | nil => exact List.forall_mem_nil _
  | unbound _ _ ih => exact List.forall_mem_cons.mpr ⟨rfl, ih⟩
  | bound _ _ ih => exact ih

theorem reportsUnbound_bind (site : Site) (h : site.store.Settled)
    (hm : site.library ∈ site.store.libraries) (seen : Visibility)
    (instances : List FoundInstance) :
    site.store.ReportsUnbound site.library seen site.location instances
      (((instances.map (site.bind seen)).filterMap Binding.diagnostic).filter
        (·.code = .unboundComponent)) := by
  induction instances with
  | nil => exact .nil
  | cons found rest ih =>
    have hn : (site.bind seen found).dependences = [] ↔ _ := Site.dependences_eq_nil_iff h hm
    have ha := site.accounted_bind seen found
    rw [List.map_cons, List.filterMap_cons]
    generalize site.bind seen found = binding at hn ha
    cases ha with
    | bound hd hc =>
      refine .bound (fun hu => hd (hn.mpr hu)) ?_
      cases hb : binding.diagnostic with
      | none => exact ih
      | some diagnostic =>
        rw [List.filter_cons_of_neg (by simpa using hc diagnostic hb)]
        exact ih
    | unbound =>
      rw [List.filter_cons_of_pos (by simp [Diagnostic.ofCode])]
      exact .unbound (hn.mp rfl) ih

theorem Registry.diagnostics_dependencies (h : store.Registry) (visibility : UnitId → Visibility) :
    (store.dependencies visibility).diagnostics = store.placedUnits.flatMap fun entry =>
      (store.bindings (visibility entry.2.id) entry.2).filterMap Binding.diagnostic := by
  unfold dependencies
  rw [h.vertexGraph_eq]
  rfl

theorem Registry.nodup_units (h : store.Registry) (hv : graph.vertices = store.vertices) :
    (graph.units.map Prod.snd).Nodup := by
  have hm : graph.units.map Prod.snd =
      (store.vertices.map (·.2.target)).filterMap Target.unit? := by
    rw [graph.map_units, ← hv, ← graph.map_numbered, List.map_map, List.filterMap_map]
    rfl
  rw [hm]
  refine h.nodup_targets.filterMap fun a b id ha hb => ?_
  rw [Target.unit?_eq_some_iff.mp ha, Target.unit?_eq_some_iff.mp hb]

theorem Registry.nodup_placedUnits (h : store.Registry) :
    (store.placedUnits.map (·.2.id)).Nodup := by
  have hu := h.nodup_units (rfl : Graph.vertices { vertices := store.vertices } = _)
  rw [List.Nodup, List.pairwise_map] at hu ⊢
  refine hu.filterMap _ fun a b hne r hr q hq he => hne ?_
  obtain ⟨_, hx, rfl⟩ := Option.map_eq_some_iff.mp hr
  obtain ⟨_, hy, rfl⟩ := Option.map_eq_some_iff.mp hq
  exact (registered?_eq_some_iff.mp hx).1.symm.trans (he.trans (registered?_eq_some_iff.mp hy).1)

def unboundReports (store : Store) (seen : Visibility) (registered : RegisteredUnit) :
    List Diagnostic :=
  ((store.bindings seen registered).filterMap Binding.diagnostic).filter
    (·.code = .unboundComponent)

theorem Settled.reportsUnbound_bindings (h : store.Settled)
    (hm : registered.library ∈ store.libraries) (hk : registered.unit.kind = .architecture)
    (seen : Visibility) :
    store.ReportsUnbound registered.library seen registered.location
      (findInstances registered.unit.statements) (store.unboundReports seen registered) := by
  rw [unboundReports, bindings, if_pos hk]
  exact reportsUnbound_bind ⟨store, registered.library, registered.location⟩ h hm seen _

theorem Settled.of_mem_unboundReports (h : store.Settled)
    (hm : registered.library ∈ store.libraries) {seen : Visibility} {diagnostic : Diagnostic}
    (hd : diagnostic ∈ store.unboundReports seen registered) :
    registered.unit.kind = .architecture ∧ diagnostic.unit? = some registered.id := by
  by_cases hk : registered.unit.kind = .architecture
  · refine ⟨hk, ?_⟩
    rw [Diagnostic.unit?, (h.reportsUnbound_bindings hm hk seen).location diagnostic hd]
    rfl
  · rw [unboundReports, bindings, if_neg hk] at hd
    cases hd

theorem Registry.filter_unbound (h : store.Registry) (visibility : UnitId → Visibility) :
    (store.dependencies visibility).diagnostics.filter (·.code = .unboundComponent) =
      store.placedUnits.flatMap fun entry =>
        store.unboundReports (visibility entry.2.id) entry.2 := by
  rw [h.diagnostics_dependencies, List.filter_flatMap]
  rfl

theorem Settled.reportsUnbound_at (h : store.Settled) (visibility : UnitId → Visibility)
    (registered : RegisteredUnit) (hr : store.registered? registered.id = some registered)
    (hk : registered.unit.kind = .architecture) :
    store.ReportsUnbound registered.library (visibility registered.id) registered.location
      (findInstances registered.unit.statements)
      (((store.dependencies visibility).diagnostics.filter (·.unit? = some registered.id)).filter
        (·.code = .unboundComponent)) := by
  obtain ⟨place, hp⟩ := h.registry.exists_place (mem_items_iff.mpr (.inr ⟨registered, hr, rfl⟩))
  have hx := h.registry.mem_placedUnits_iff.mpr ⟨hr, hp⟩
  rw [List.filter_comm, h.registry.filter_unbound,
    filter_flatMap_of_nodup h.registry.nodup_placedUnits hx ?_]
  · exact h.reportsUnbound_bindings (h.registry.registered?_iff.mp hr).1 hk _
  · rintro ⟨other, found⟩ ho diagnostic hd
    obtain ⟨hf, _⟩ := h.registry.mem_placedUnits_iff.mp ho
    obtain ⟨_, hd⟩ := h.of_mem_unboundReports (h.registry.registered?_iff.mp hf).1 hd
    simp [hd]

end Reports

end Store

/-- The edges of instances and the reports on them are exact. An edge of an instance goes from an
architecture to another unit that one of its instances binds to. The instances of an architecture
that bind to nothing are reported at it in the order in which a walk through its statements comes to
them, and nothing else is reported as unbound. -/
structure Analysis.InstancesExact (analysis : Analysis) (store : Store) : Prop where
  edge_iff : ∀ kind, kind.isLinked = false → ∀ a b, (analysis.dependency.Connects kind (.unit a)
    (.unit b) ↔ b ≠ a ∧ store.InstanceBinds a kind b)
  ends : ∀ edge ∈ analysis.dependency.edges, edge.weight.isLinked = false → ∃ a b,
    analysis.dependency.target? edge.source = some (.unit a) ∧
      analysis.dependency.target? edge.target = some (.unit b)
  reports : ∀ library ∈ store.libraries, ∀ id unit, store.unitIn? library.id id = some unit →
    unit.kind = .architecture → store.ReportsUnbound library (store.visibilityOf id)
      (store.locationOf id) (findInstances unit.statements)
      ((analysis.diagnosticsFor id).filter (·.code = .unboundComponent))
  listed : ∀ id unit, store.unit? id = some unit →
    (findInstances unit.statements).map FoundInstance.labelled =
      (Walk.statements (ConcStmt.walks [] unit.statements)).filterMap ConcStmt.instance?
  only : ∀ diagnostic ∈ analysis.diagnostics, diagnostic.code = .unboundComponent →
    ∃ id, diagnostic.unit? = some id ∧ store.HasUnit id fun _ unit => unit.kind = .architecture

namespace Store

variable {store : Store} {graph : DependencyGraph} {id : UnitId}

theorem Registry.target?_inj (h : store.Registry) (hv : graph.vertices = store.vertices)
    {a b : Nat} {target : Target} (ha : graph.target? a = some target)
    (hb : graph.target? b = some target) : a = b := by
  obtain ⟨_, ha⟩ := (target?_eq_some_iff hv).mp ha
  obtain ⟨_, hb⟩ := (target?_eq_some_iff hv).mp hb
  exact h.place_unique ha hb

theorem FirstEntity.declares {name : String} {libraries : List LibraryId}
    (h : store.FirstEntity name libraries id) :
    ∃ library, store.Declares library .entity name id := by
  induction h with
  | here hd => exact ⟨_, hd⟩
  | later _ _ ih => exact ih

def IsBindable (store : Store) (kind : EdgeKind) (id : UnitId) : Prop :=
  ∃ unit, store.unit? id = some unit ∧
    (if kind = .configurationReference then unit.kind = .configuration
      else unit.kind = .entity ∨ unit.kind = .architecture)

theorem isBindable_of_declares {library : LibraryId} {name : String} {kind : EdgeKind}
    (hk : kind ≠ .configurationReference) (hd : store.Declares library .entity name id) :
    store.IsBindable kind id := by
  obtain ⟨unit, hu, hx, _⟩ := hd
  exact ⟨unit, unit?_of_unitIn? hu, by simp [hk, hx]⟩

theorem Selects.isBindable {library : LibraryId} {name : String} {entity : UnitId}
    {named : Option Identifier} {kind : EdgeKind} (hs : store.Selects entity named id)
    (hk : kind ≠ .configurationReference) (hd : store.Declares library .entity name entity) :
    store.IsBindable kind id := by
  cases hs with
  | architecture ha =>
    obtain ⟨unit, hu, hx, _⟩ := ha
    exact ⟨unit, hu, by simp [hk, hx]⟩
  | entity _ => exact isBindable_of_declares hk hd

theorem Settled.isBindable (h : store.Settled) {own : Library} {seen : Visibility}
    {instantiated : InstantiatedUnit} {kind : EdgeKind}
    (hb : store.Binds own seen instantiated kind id) : store.IsBindable kind id := by
  cases hb with
  | entity hn hs =>
    obtain ⟨_, _, hd⟩ := hn.declares
    exact hs.isBindable nofun hd
  | component _ hf =>
    obtain ⟨_, hd⟩ := hf.declares
    exact isBindable_of_declares nofun hd
  | configuration hn =>
    obtain ⟨_, _, unit, hu, hk, _⟩ := hn.declares
    exact ⟨unit, unit?_of_unitIn? hu, hk⟩
  | configured hn hu ht hs =>
    obtain ⟨_, _, unit, hx, hk, _⟩ := hn.declares
    obtain rfl := Option.some.inj (hu.symm.trans (unit?_of_unitIn? hx))
    obtain ⟨_, _, hd⟩ := h.declares_of_configuration hu hk ht
    exact hs.isBindable nofun hd

theorem Settled.connects_iff (h : store.Settled)
    (hg : graph = (store.dependencies store.visibilityOf).graph) {kind : EdgeKind}
    (hk : kind.isLinked = false) {a b : UnitId} :
    graph.Connects kind (.unit a) (.unit b) ↔ b ≠ a ∧ store.InstanceBinds a kind b := by
  have hv : graph.vertices = store.vertices := hg ▸ h.registry.vertices_dependencies _
  constructor
  · rintro ⟨source, destination, hs, hd, he⟩
    obtain ⟨hne, x, y, hx, hy, hb⟩ := (h.mem_instance_edges_iff hg hk).mp he
    obtain rfl := DependencyGraph.unit_unique hx hs
    obtain rfl := DependencyGraph.unit_unique hy hd
    exact ⟨fun he => hne (h.registry.target?_inj hv hs (he ▸ hd)), hb⟩
  · rintro ⟨hne, hb⟩
    have ⟨library, hm, unit, hu, _, label, instantiation, _, hx⟩ := hb
    obtain ⟨found, hf, _⟩ := h.isBindable hx
    obtain ⟨source, hs⟩ := h.registry.exists_unit_target? hv (unit?_of_unitIn? hu)
    obtain ⟨destination, hd⟩ := h.registry.exists_unit_target? hv hf
    refine ⟨source, destination, hs, hd,
      (h.mem_instance_edges_iff hg hk).mpr ⟨fun he => hne ?_, a, b, hs, hd, hb⟩⟩
    rw [he] at hs
    exact DependencyGraph.unit_unique hd hs

theorem Registry.instancesExact_analyze (h : store.Registry) :
    store.analyze.analysis.InstancesExact store.analyze.store := by
  have hs := h.settled_analyze
  have hg : store.analyze.analysis.dependency =
      (store.analyze.store.dependencies store.analyze.store.visibilityOf).graph := by
    rw [dependency_analyze, visibilityOf_analyze]
  have hp : ∀ diagnostic : Diagnostic, decide (diagnostic.code = .unboundComponent) = true →
      diagnostic.code.phase? = some .binding := by
    intro diagnostic hc
    rw [of_decide_eq_true hc]
    rfl
  have hc := congrArg Prod.snd h.analyze.vertexGraph_eq
  refine ⟨fun kind hk a b => hs.connects_iff hg hk, ?_, ?_, fun _ unit _ =>
    map_findInstances unit.statements, ?_⟩
  · rintro ⟨source, destination, kind⟩ he hk
    obtain ⟨_, a, b, hx, hy, _⟩ := (hs.mem_instance_edges_iff hg hk).mp he
    exact ⟨a, b, hx, hy⟩
  · intro library hm id unit hu hk
    obtain ⟨document, hr⟩ := h.analyze.exists_registered? hm hu
    rw [filter_diagnosticsFor_analyze hc hp, visibilityOf_analyze, locationOf, hr]
    exact hs.reportsUnbound_at store.visibilityOf ⟨id, library, document, unit⟩ hr hk
  · intro diagnostic hd hcode
    have hm := mem_reports hc hd (hp diagnostic (decide_eq_true hcode))
    have hf := h.analyze.filter_unbound _ ▸ List.mem_filter.mpr ⟨hm, decide_eq_true hcode⟩
    obtain ⟨⟨place, registered⟩, hx, hf⟩ := List.mem_flatMap.mp hf
    obtain ⟨hm, _, hu⟩ := h.analyze.registered?_iff.mp (h.analyze.mem_placedUnits_iff.mp hx).1
    obtain ⟨hk, hid⟩ := hs.of_mem_unboundReports hm hf
    exact ⟨registered.id, hid, registered.library, hm, registered.unit, hu, hk⟩

end Store

/-- After an analysis of a reachable design the edges of instances are exactly those of the bindings
of its instances, and exactly the instances without a binding are reported. -/
theorem Design.Reachable.instance_edges_exact {design : Design} (h : design.Reachable) :
    ∃ analysis, design.analyze.design.analysis = some analysis ∧
      analysis.InstancesExact design.analyze.design.store :=
  ⟨_, rfl, h.grounded.built.registry.instancesExact_analyze⟩

/-- An architecture with instances in a block and in a generate statement, of an entity that is
missing the architecture, of a component that another library has, of a configuration, and of two
units that are not found. The configured architecture instantiates itself. -/
def Design.turbineUnits : List DesignUnit :=
  let here : Identifier := ⟨"WoRK", by decide +kernel⟩
  let spares : Identifier := ⟨"spares", by decide +kernel⟩
  let hub : Identifier := ⟨"hub", by decide +kernel⟩
  let rotor : Identifier := ⟨"rotor", by decide +kernel⟩
  let blade : Identifier := ⟨"blade", by decide +kernel⟩
  let trim : Identifier := ⟨"trim", by decide +kernel⟩
  let turbine : Identifier := ⟨"turbine", by decide +kernel⟩
  let selected (first second : Identifier) : Name := .selected (.simple first) second
  let unlabelled (unit : InstantiatedUnit) : ConcStmt := .mk none (.instantiation { unit })
  [{ ident := hub, body := .entity none none [] [] },
    { ident := rotor, body := .entity none none [] [] },
    { ident := blade
      body := .architecture { item := rotor } []
        [unlabelled (.entity (selected here rotor) (some blade))] },
    { ident := trim
      body := .configuration { item := selected here rotor } [] (some (.simple blade)) },
    { ident := turbine
      context := [.library [{ item := spares }]]
      body := .entity none none [] [] },
    { ident := ⟨"casing", by decide +kernel⟩
      body := .architecture { item := turbine } []
        [.mk none (.block []
            [unlabelled (.component (.simple hub)), unlabelled (.component (.simple trim))]),
          .mk none (.ifGenerate
            [.mk (.literal .null) (.mk none none
              [unlabelled (.entity (selected spares hub) (some blade))])] none),
          unlabelled (.configuration (.simple trim)),
          unlabelled (.entity (.all (.simple rotor)) none)] }]

def Design.turbines : Design :=
  let design := ((withConfig {}).createLibrary "plant").design
  let design := (design.createLibrary "spares").design
  let design := (design.addDocument { units := turbineUnits.drop 1 } ⟨0⟩).design
  (design.addDocument { units := turbineUnits.take 1 } ⟨1⟩).design

theorem Design.turbines_instance_edges : turbines.Reachable ∧
    (turbines.analyze.design.analysis.map fun analysis =>
      analysis.dependency.edgeKeys.filter (!·.2.2.isLinked)) =
      some [("plant.turbine(casing)", "spares.hub", .componentInstantiation),
        ("plant.turbine(casing)", "spares.hub", .entityInstantiation),
        ("plant.turbine(casing)", "plant.trim", .configurationReference),
        ("plant.turbine(casing)", "plant.rotor(blade)", .configurationInstantiation)] ∧
    ((turbines.store.reports .binding).map fun report => (report.location.name, report.code)) =
      [("plant.turbine(casing)", .unboundComponent), ("plant.turbine(casing)", .noArchForEnt),
        ("plant.turbine(casing)", .unboundComponent)] ∧
    ∃ analysis, turbines.analyze.design.analysis = some analysis ∧
      analysis.InstancesExact turbines.analyze.design.store :=
  have h : turbines.Reachable :=
    .addDocument _ _ (.addDocument _ _ (.createLibrary _ (.createLibrary _ (.start _))))
  ⟨h, by decide +kernel, by decide +kernel, h.instance_edges_exact⟩

end Vhdl
