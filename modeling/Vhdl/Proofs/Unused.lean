import Vhdl.Proofs.TopLevel

/-! # Unused units

A search from the roots goes on to what a unit depends on and to what implements it. In whatever
order it takes up what it has to look at, it ends, and it has then found the least set of vertices
that holds the roots and all that those steps lead to. The units outside of that set are unused.
-/

namespace Vhdl

/-- What a search has found, and what it has still to look at. -/
structure Search (α : Type) where
  found : List α
  todo : List α

namespace Search

variable {α : Type} {next : α → List α} {start vertices : List α} {s t : Search α} {x : α}

/-- A search takes up any of the items that it has to look at, and goes on from a new one. -/
inductive Step (next : α → List α) : Search α → Search α → Prop where
  | skip {found before after : List α} {x : α} : x ∈ found →
      Step next ⟨found, before ++ x :: after⟩ ⟨found, before ++ after⟩
  | visit {found before after : List α} {x : α} : x ∉ found →
      Step next ⟨found, before ++ x :: after⟩ ⟨x :: found, before ++ after ++ next x⟩

def Reaches (next : α → List α) (start : List α) (x : α) : Prop :=
  ∃ y ∈ start, Relation.ReflTransGen (fun a b => b ∈ next a) y x

def Knows (s : Search α) (x : α) : Prop :=
  x ∈ s.found ∨ x ∈ s.todo

/-- A search knows only what can be reached. It knows where it started and where it can go from what
it has found. -/
structure Sound (next : α → List α) (start : List α) (s : Search α) : Prop where
  reached : ∀ x, s.Knows x → Reaches next start x
  started : ∀ x ∈ start, s.Knows x
  closed : ∀ x ∈ s.found, ∀ y ∈ next x, s.Knows y

theorem sound_start (next : α → List α) (start : List α) : Sound next start ⟨[], start⟩ where
  reached x hx := ⟨x, by simpa [Knows] using hx, .refl⟩
  started _ hx := .inr hx
  closed := nofun

theorem Step.knows_iff (h : Step next s t) : t.Knows x ↔
    s.Knows x ∨ ∃ y ∈ t.found, y ∉ s.found ∧ x ∈ next y := by
  cases h with
  | @skip found before after y hm =>
    have hx : x = y → x ∈ found := fun he => he ▸ hm
    simp only [Knows, List.mem_append, List.mem_cons]
    tauto
  | @visit found before after y hn =>
    have hy : (∃ z ∈ y :: found, z ∉ found ∧ x ∈ next z) ↔ x ∈ next y := by
      constructor
      · rintro ⟨z, hz, hf, hx⟩
        exact (List.mem_cons.mp hz).resolve_right hf ▸ hx
      · exact fun hx => ⟨y, List.mem_cons_self, hn, hx⟩
    rw [hy]
    simp only [Knows, List.mem_append, List.mem_cons]
    tauto

theorem Step.knows_of_found (h : Step next s t) (hx : x ∈ t.found) : s.Knows x := by
  cases h with
  | skip _ => exact .inl hx
  | visit _ =>
    rcases List.mem_cons.mp hx with rfl | hx
    · exact .inr (List.mem_append_right _ List.mem_cons_self)
    · exact .inl hx

theorem Sound.step (h : s.Sound next start) (hs : Step next s t) : t.Sound next start where
  reached x hx := by
    rcases hs.knows_iff.mp hx with hx | ⟨y, hy, _, hxy⟩
    · exact h.reached x hx
    · obtain ⟨z, hz, hp⟩ := h.reached y (hs.knows_of_found hy)
      exact ⟨z, hz, hp.tail hxy⟩
  started x hx := hs.knows_iff.mpr (.inl (h.started x hx))
  closed x hx y hy := by
    refine hs.knows_iff.mpr ?_
    by_cases hf : x ∈ s.found
    · exact .inl (h.closed x hf y hy)
    · exact .inr ⟨x, hx, hf, hy⟩

theorem Sound.run (h : s.Sound next start) (hr : Relation.ReflTransGen (Step next) s t) :
    t.Sound next start := by
  induction hr with
  | refl => exact h
  | tail _ hs ih => exact ih.step hs

/-- A search that has nothing left to look at has found all that can be reached. -/
theorem Sound.mem_found_iff (h : s.Sound next start) (hd : s.todo = []) :
    x ∈ s.found ↔ Reaches next start x := by
  have hk : ∀ y, s.Knows y → y ∈ s.found := by
    intro y hy
    rw [Knows, hd] at hy
    exact hy.resolve_right List.not_mem_nil
  refine ⟨fun hx => h.reached x (.inl hx), ?_⟩
  rintro ⟨y, hy, hp⟩
  induction hp with
  | refl => exact hk y (h.started y hy)
  | tail _ hz ih => exact hk _ (h.closed _ ih _ hz)

theorem exists_step (hn : s.todo ≠ []) : ∃ t, Step next s t := by
  obtain ⟨found, todo⟩ := s
  obtain ⟨x, rest, rfl⟩ := List.exists_cons_of_ne_nil hn
  by_cases hx : x ∈ found
  · exact ⟨_, show Step next ⟨found, [] ++ x :: rest⟩ _ from .skip hx⟩
  · exact ⟨_, show Step next ⟨found, [] ++ x :: rest⟩ _ from .visit hx⟩

theorem Step.todo_mem (h : Step next s t) (hc : ∀ x ∈ vertices, ∀ y ∈ next x, y ∈ vertices)
    (hs : ∀ x ∈ s.todo, x ∈ vertices) : ∀ x ∈ t.todo, x ∈ vertices := by
  cases h with
  | skip _ =>
    simp only [List.forall_mem_append, List.forall_mem_cons] at hs ⊢
    exact ⟨hs.1, hs.2.2⟩
  | @visit _ _ _ x _ =>
    simp only [List.forall_mem_append, List.forall_mem_cons] at hs ⊢
    exact ⟨⟨hs.1, hs.2.2⟩, hc x hs.2.1⟩

/-- Either fewer vertices are left to be found, or as many with fewer items to look at. -/
theorem Step.lex [DecidableEq α] (h : Step next s t) (hs : ∀ x ∈ s.todo, x ∈ vertices) :
    Prod.Lex (· < ·) (· < ·)
      ((vertices.filter (· ∉ t.found)).length, t.todo.length)
      ((vertices.filter (· ∉ s.found)).length, s.todo.length) := by
  cases h with
  | skip _ =>
    refine .right _ ?_
    simp only [List.length_append, List.length_cons]
    omega
  | @visit found _ _ x hn =>
    refine .left _ _ ?_
    have hx : x ∈ vertices := hs x (List.mem_append_right _ List.mem_cons_self)
    have hf : vertices.filter (· ∉ x :: found) =
        (vertices.filter (· ∉ found)).filter (· ≠ x) := by
      simp [List.filter_filter]
    rw [hf, List.length_filter_lt_length_iff_exists]
    exact ⟨x, List.mem_filter.mpr ⟨hx, decide_eq_true hn⟩, by simp⟩

/-- A search among finitely many vertices ends, whatever it takes up first. -/
theorem acc_step [DecidableEq α] (hc : ∀ x ∈ vertices, ∀ y ∈ next x, y ∈ vertices) (s : Search α)
    (hs : ∀ x ∈ s.todo, x ∈ vertices) : Acc (fun t s => Step next s t) s :=
  ⟨s, fun t ht => acc_step hc t (ht.todo_mem hc hs)⟩
termination_by ((vertices.filter (· ∉ s.found)).length, s.todo.length)
decreasing_by exact ht.lex hs

end Search

namespace Analysis

variable {analysis : Analysis} {store : Store} {number : Nat}

def rootVertices (analysis : Analysis) : List Nat :=
  analysis.hierarchy.rootKeys.filterMap analysis.dependency.vertexId?

/-- The least set of vertices that holds those of the roots, and with a vertex all that it depends
on and all that implement it. -/
inductive Used (analysis : Analysis) : Nat → Prop where
  | root {place number : Nat} {item : Target} : place ∈ analysis.hierarchy.roots →
      analysis.hierarchy.graph.target? place = some item →
      analysis.dependency.target? number = some item → Used analysis number
  | dependency {a b : Nat} : Used analysis a → analysis.dependency.Step a b → Used analysis b
  | implementation {a b : Nat} {kind : EdgeKind} : Used analysis b →
      kind.edgeClass = .implements → ⟨a, b, kind⟩ ∈ analysis.dependency.edges → Used analysis a

namespace Faithful

theorem keyOf?_hierarchy (h : analysis.Faithful store) (place : Nat) :
    analysis.hierarchy.graph.keyOf? place =
      (Hierarchy.kept analysis.dependency)[place]?.bind analysis.dependency.keyOf? := by
  rw [h.hierarchy, Graph.keyOf?, Graph.vertex?]
  refine (congrArg _ (Hierarchy.vertices_graphOf_getElem? analysis.dependency place)).trans ?_
  cases (Hierarchy.kept analysis.dependency)[place]? <;> rfl

theorem mem_rootVertices_iff (h : analysis.Faithful store) : number ∈ analysis.rootVertices ↔
    ∃ place ∈ analysis.hierarchy.roots,
      (Hierarchy.kept analysis.dependency)[place]? = some number := by
  simp only [rootVertices, Hierarchy.rootKeys, List.mem_filterMap, h.keyOf?_hierarchy,
    h.keyed.vertexId?_eq_some_iff, Option.bind_eq_some_iff]
  constructor
  · rintro ⟨key, ⟨place, hr, other, hp, hk⟩, hn⟩
    obtain rfl := h.keyed.keyOf?_inj hk hn
    exact ⟨place, hr, hp⟩
  · rintro ⟨place, hr, hp⟩
    obtain ⟨key, vertex, hv, _⟩ := Hierarchy.mem_kept_iff.mp (List.mem_of_getElem? hp)
    have hk := DependencyGraph.keyOf?_of_vertex? hv
    exact ⟨key, ⟨place, hr, number, hp, hk⟩, hk⟩

theorem rootVertices_mem (h : analysis.Faithful store) :
    ∀ x ∈ analysis.rootVertices, x ∈ analysis.dependency.vertexIds := by
  intro x hx
  obtain ⟨place, _, hp⟩ := h.mem_rootVertices_iff.mp hx
  obtain ⟨key, vertex, hv, _⟩ := Hierarchy.mem_kept_iff.mp (List.mem_of_getElem? hp)
  exact List.mem_range.mpr (List.getElem?_eq_some_iff.mp hv).1

theorem used_iff (h : analysis.Faithful store) : analysis.Used number ↔
    Search.Reaches (nextUsed analysis.dependency) analysis.rootVertices number := by
  constructor
  · intro hu
    induction hu with
    | @root place number item hr hp hn =>
      rw [h.target?_hierarchy] at hp
      obtain ⟨other, hk, ht⟩ := Option.bind_eq_some_iff.mp hp
      obtain rfl := h.target?_inj ht hn
      exact ⟨other, h.mem_rootVertices_iff.mpr ⟨place, hr, hk⟩, .refl⟩
    | dependency _ hs ih =>
      obtain ⟨start, hm, hp⟩ := ih
      obtain ⟨edge, he, ha, hb⟩ := hs
      exact ⟨start, hm, hp.tail (DependencyGraph.mem_nextUsed_iff.mpr ⟨edge, he, .inl ⟨ha, hb⟩⟩)⟩
    | implementation _ hc he ih =>
      obtain ⟨start, hm, hp⟩ := ih
      exact ⟨start, hm,
        hp.tail (DependencyGraph.mem_nextUsed_iff.mpr ⟨_, he, .inr ⟨rfl, rfl, hc⟩⟩)⟩
  · rintro ⟨start, hm, hp⟩
    induction hp with
    | refl =>
      obtain ⟨place, hr, hk⟩ := h.mem_rootVertices_iff.mp hm
      obtain ⟨id, ht, _⟩ := h.mem_kept_iff.mp (List.mem_of_getElem? hk)
      exact .root hr (by rw [h.target?_hierarchy, hk, Option.bind_some, ht]) ht
    | tail _ hn ih =>
      obtain ⟨edge, he, ⟨ha, hb⟩ | ⟨rfl, rfl, hc⟩⟩ := DependencyGraph.mem_nextUsed_iff.mp hn
      · exact .dependency ih ⟨edge, he, ha, hb⟩
      · exact .implementation ih hc he

theorem mem_usedVertices_iff (h : analysis.Faithful store) :
    number ∈ analysis.usedVertices ↔ analysis.Used number := by
  rw [usedVertices, mem_reach_iff h.keyed.nextUsed_mem, h.used_iff]
  refine exists_congr fun start => and_congr_right fun hs => and_iff_right ?_
  exact h.rootVertices_mem start hs

theorem mem_unusedUnits_iff (h : analysis.Faithful store) {id : UnitId} :
    id ∈ analysis.unusedUnits ↔
      (store.HasUnit id fun own _ => store.config.isPredefined own.name = false) ∧
        ∀ number, analysis.dependency.target? number = some (.unit id) →
          ¬ analysis.Used number := by
  rw [Analysis.mem_unusedUnits_iff]
  constructor
  · rintro ⟨number, key, vertex, hv, hp, hn, hu⟩
    have ht := Target.unit?_eq_some_iff.mp hu
    have hx := DependencyGraph.target?_eq_some_iff.mpr ⟨key, vertex, hv, ht⟩
    refine ⟨(h.hasUnit_of_vertex hv ht).imp fun _ _ he => he.2.symm.trans hp, fun other ho hu => ?_⟩
    exact hn (h.mem_usedVertices_iff.mpr (h.target?_inj ho hx ▸ hu))
  · rintro ⟨hid, hn⟩
    have ⟨_, _, _, hu, _⟩ := hid
    obtain ⟨number, hx⟩ :=
      h.settled.registry.exists_unit_target? h.vertices (Store.unit?_of_unitIn? hu)
    obtain ⟨key, vertex, hv, ht⟩ := DependencyGraph.target?_eq_some_iff.mp hx
    obtain ⟨_, _, _, _, hp, _, he⟩ :=
      h.settled.registry.hasUnit_and hid (h.hasUnit_of_vertex hv ht)
    exact ⟨number, key, vertex, hv, he.trans hp, mt h.mem_usedVertices_iff.mp (hn number hx),
      Target.unit?_eq_some_iff.mpr ht⟩

end Faithful

theorem unusedUnits_sublist (analysis : Analysis) :
    analysis.unusedUnits.Sublist (analysis.dependency.units.map Prod.snd) := by
  have hu : analysis.unusedUnits = (analysis.dependency.numbered.filter fun entry =>
      !(entry.2.2.predefined || analysis.usedVertices.contains entry.1)).filterMap
        (·.2.2.unit?) := by
    rw [List.filterMap_filter]
    refine List.filterMap_congr ?_
    rintro ⟨id, _, vertex⟩ _
    cases hp : vertex.predefined <;> by_cases hm : id ∈ analysis.usedVertices <;> simp [hp, hm]
  rw [hu, analysis.dependency.map_units]
  exact List.filter_sublist.filterMap _

end Analysis

/-- The unused units are exact. Any search for used vertices ends, and where it ends it has found
the used vertices. The unused units are those of libraries that are not predefined whose vertices
are not used, in the order of the vertices and without repetition. -/
structure Analysis.UnusedExact (analysis : Analysis) (store : Store) : Prop where
  ends : Acc (fun t s => Search.Step (nextUsed analysis.dependency) s t) ⟨[], analysis.rootVertices⟩
  searched : ∀ s, Relation.ReflTransGen (Search.Step (nextUsed analysis.dependency))
    ⟨[], analysis.rootVertices⟩ s → (¬ ∃ t, Search.Step (nextUsed analysis.dependency) s t) →
      ∀ number, number ∈ s.found ↔ analysis.Used number
  used : ∀ number, number ∈ analysis.usedVertices ↔ analysis.Used number
  mem_iff : ∀ id, id ∈ analysis.unusedUnits ↔
    (store.HasUnit id fun own _ => store.config.isPredefined own.name = false) ∧
      ∀ number, analysis.dependency.target? number = some (.unit id) → ¬ analysis.Used number
  order : analysis.unusedUnits.Sublist (analysis.dependency.units.map Prod.snd)
  nodup : analysis.unusedUnits.Nodup

theorem Analysis.Faithful.unusedExact {analysis : Analysis} {store : Store}
    (h : analysis.Faithful store) : analysis.UnusedExact store where
  ends := Search.acc_step h.keyed.nextUsed_mem _ h.rootVertices_mem
  searched s hr hd number := by
    have hs := (Search.sound_start _ _).run hr
    rw [hs.mem_found_iff (not_not.mp (mt Search.exists_step hd)), h.used_iff]
  used _ := h.mem_usedVertices_iff
  mem_iff _ := h.mem_unusedUnits_iff
  order := analysis.unusedUnits_sublist
  nodup := (h.settled.registry.nodup_units h.vertices).sublist analysis.unusedUnits_sublist

/-- In a reachable design that is analyzed the unused units are exactly those that no root leads
to. -/
theorem Design.Reachable.unused_units_exact {design : Design} (h : design.Reachable)
    {analysis : Analysis} (ha : design.analysis = some analysis) :
    analysis.UnusedExact design.store := by
  obtain ⟨store, hb, hs, rfl⟩ := h.grounded.analyzed analysis ha
  rw [hs]
  exact hb.registry.faithful_analyze.unusedExact

/-- A package that the only root uses, another one that nothing uses, both with their bodies, and
two architectures that instantiate the entity of each other. The package in the first library is
predefined. -/
def Design.lampUnits : List DesignUnit :=
  let shade : Identifier := ⟨"shade", by decide +kernel⟩
  let dust : Identifier := ⟨"dust", by decide +kernel⟩
  let lamp : Identifier := ⟨"lamp", by decide +kernel⟩
  let dusk : Identifier := ⟨"dusk", by decide +kernel⟩
  let dawn : Identifier := ⟨"dawn", by decide +kernel⟩
  let glow : Identifier := ⟨"glow", by decide +kernel⟩
  let holding (entity part : Identifier) : DesignUnit :=
    { ident := glow
      body := .architecture { item := entity } []
        [.mk none (.instantiation { unit := .component (.simple part) })] }
  [{ ident := dust, body := .package none [] },
    { ident := shade, body := .package none [] },
    { ident := shade, body := .packageBody none [] },
    { ident := dust, body := .package none [] },
    { ident := dust, body := .packageBody none [] },
    { ident := lamp
      context := [.use [{ item := .selected (.simple ⟨"woRK", by decide +kernel⟩) shade }]]
      body := .entity none none [] [] },
    { ident := glow, body := .architecture { item := lamp } [] [] },
    { ident := dusk, body := .entity none none [] [] },
    holding dusk dawn,
    { ident := dawn, body := .entity none none [] [] },
    holding dawn dusk]

def Design.lamps : Design :=
  let design := ((withConfig {}).createLibrary "ieee").design
  let design := (design.createLibrary "attic").design
  let design := (design.addDocument { units := lampUnits.take 1 } ⟨0⟩).design
  (design.addDocument { units := lampUnits.drop 1 } ⟨1⟩).design

theorem Design.usedVertices_lamps : lamps.store.analyze.analysis.usedVertices = [4, 3, 9, 11] := by
  let next := Analysis.nextUsed lamps.store.analyze.analysis.dependency
  have hdata : (lamps.store.analyze.analysis.rootVertices,
      lamps.store.analyze.analysis.dependency.vertexIds, [4, 3, 9, 11].map next) =
      ([4], List.range 13, [[3], [9, 4], [11], [9]]) := by decide +kernel
  simp only [Prod.mk.injEq, List.map_cons, List.cons.injEq] at hdata
  obtain ⟨hroots, hids, hglow, hlamp, hshade, hbody, _⟩ := hdata
  change reach next _ lamps.store.analyze.analysis.rootVertices = _
  rw [hroots, hids]
  simp [reach, hglow, hlamp, hshade, hbody, List.range, List.range.loop]

theorem Design.lamps_unused : lamps.analyze.design.Reachable ∧
    lamps.analyze.design.analysis = some lamps.store.analyze.analysis ∧
    lamps.store.analyze.analysis.hierarchy.rootKeys = ["attic.lamp(glow)"] ∧
    lamps.store.analyze.analysis.unusedUnits =
      [⟨⟨1⟩, 6⟩, ⟨⟨1⟩, 7⟩, ⟨⟨1⟩, 8⟩, ⟨⟨1⟩, 9⟩, ⟨⟨1⟩, 2⟩, ⟨⟨1⟩, 3⟩] ∧
    lamps.store.analyze.analysis.UnusedExact lamps.analyze.design.store := by
  have h : lamps.analyze.design.Reachable :=
    .analyze (.addDocument _ _ (.addDocument _ _ (.createLibrary _ (.createLibrary _ (.start _)))))
  refine ⟨h, rfl, by decide +kernel, ?_, h.unused_units_exact rfl⟩
  unfold Analysis.unusedUnits
  rw [usedVertices_lamps]
  decide +kernel

end Vhdl
