import Vhdl.Proofs.SameContent

/-! # Open slots

Every unit is linked exactly once, and everything that linking says about it stands at the unit.
After an analysis the link errors at a unit are therefore as many as its open slots.
-/

namespace Vhdl

/-- Of lists that belong to distinct keys, a filter for one key leaves one. -/
theorem filter_flatMap_of_nodup {α β κ : Type} {key : α → κ} {f : α → List β} {p : β → Bool}
    {xs : List α} (hn : (xs.map key).Nodup) {x : α} (hx : x ∈ xs)
    (hp : ∀ y ∈ xs, ∀ b ∈ f y, (p b = true ↔ key y = key x)) :
    (xs.flatMap f).filter p = f x := by
  obtain ⟨before, after, rfl⟩ := List.append_of_mem hx
  rw [List.map_append, List.map_cons, List.nodup_append] at hn
  obtain ⟨_, hafter, hbefore⟩ := hn
  have hnil : ∀ ys : List α, (∀ y ∈ ys, y ∈ before ++ x :: after ∧ key y ≠ key x) →
      (ys.flatMap f).filter p = [] := by
    intro ys hy
    refine List.filter_eq_nil_iff.mpr fun b hb hpb => ?_
    obtain ⟨y, hm, hb⟩ := List.mem_flatMap.mp hb
    obtain ⟨hmem, hne⟩ := hy y hm
    exact hne ((hp y hmem b hb).mp hpb)
  have hself : (f x).filter p = f x :=
    List.filter_eq_self.mpr fun b hb => (hp x hx b hb).mpr rfl
  have hl := hnil before fun y hy => ⟨List.mem_append_left _ hy, fun he =>
    hbefore _ (List.mem_map_of_mem hy) _ List.mem_cons_self he⟩
  have hr := hnil after fun y hy => ⟨by simp [hy], fun he =>
    (List.nodup_cons.mp hafter).1 (he ▸ List.mem_map_of_mem hy)⟩
  rw [List.flatMap_append, List.flatMap_cons, List.filter_append, List.filter_append, hl, hself, hr,
    List.nil_append, List.append_nil]

namespace Store

variable {store : Store} {library : Library} {id : UnitId} {unit : DesignUnit}

theorem unit?_locationOf (store : Store) (id : UnitId) : (store.locationOf id).unit? = some id := by
  unfold locationOf
  split
  · next registered hr =>
    rw [RegisteredUnit.location, (registered?_eq_some_iff.mp hr).1]
    rfl
  · rfl

theorem map_id_linkUnits (store : Store) : store.linkUnits.map LinkedUnit.id =
    store.libraries.flatMap fun library => UnitKind.linkOrder.flatMap fun kind =>
      (library.unitsOfKind kind).filterMap fun id => (store.unit? id).map fun _ => id := by
  simp only [linkUnits, linkLibrary, List.map_flatMap, List.map_filterMap, Option.map_map]
  rfl

theorem Registry.nodup_linkUnits (h : store.Registry) :
    (store.linkUnits.map LinkedUnit.id).Nodup := by
  have hmem : ∀ {library : Library} {kind : UnitKind} {id : UnitId},
      id ∈ ((library.unitsOfKind kind).filterMap fun id => (store.unit? id).map fun _ => id) →
        id ∈ library.unitsOfKind kind := by
    intro library kind id hm
    obtain ⟨other, ho, he⟩ := List.mem_filterMap.mp hm
    obtain ⟨_, _, rfl⟩ := Option.map_eq_some_iff.mp he
    exact ho
  rw [map_id_linkUnits, List.nodup_flatMap]
  refine ⟨fun library hl => List.nodup_flatMap.mpr ⟨fun kind _ => ?_, ?_⟩, ?_⟩
  · refine ((h.holds_mem hl).nodup_kind kind).filterMap fun a b id ha hb => ?_
    obtain ⟨_, _, rfl⟩ := Option.map_eq_some_iff.mp ha
    obtain ⟨_, _, rfl⟩ := Option.map_eq_some_iff.mp hb
    rfl
  · have hn : UnitKind.linkOrder.Pairwise (· ≠ ·) := by decide
    refine hn.imp fun hne id ha hb => ?_
    obtain ⟨u, hu, rfl⟩ := ((h.holds_mem hl).mem_kind _ id).mp (hmem ha)
    obtain ⟨v, hv, rfl⟩ := ((h.holds_mem hl).mem_kind _ id).mp (hmem hb)
    exact hne (congrArg DesignUnit.kind (unitIn?_unique hu hv).2)
  · refine h.pairwise_id.imp_of_mem fun {a b} ha hb hne id hx hy => ?_
    obtain ⟨_, _, hx⟩ := List.mem_flatMap.mp hx
    obtain ⟨_, _, hy⟩ := List.mem_flatMap.mp hy
    obtain ⟨u, hu, _⟩ := ((h.holds_mem ha).mem_kind _ id).mp (hmem hx)
    obtain ⟨v, hv, _⟩ := ((h.holds_mem hb).mem_kind _ id).mp (hmem hy)
    exact hne (unitIn?_unique hu hv).1

theorem Registry.linkDiagnostics_at (h : store.Registry) (hm : library ∈ store.libraries)
    (hu : store.unitIn? library.id id = some unit) :
    (store.linkUnits.flatMap LinkedUnit.diagnostics).filter (·.unit? = some id) =
      (store.linkUnit library id unit).diagnostics := by
  have hmem := List.mem_of_find?_eq_some (h.find?_linkUnits hm hu)
  refine filter_flatMap_of_nodup h.nodup_linkUnits hmem fun linked hl diagnostic hd => ?_
  obtain ⟨owner, _, kind, _, other, _, unit', _, rfl⟩ := mem_linkUnits_iff.mp hl
  have hr := ((store.log_linkUnit owner other unit').1 diagnostic hd).location
  have hx : diagnostic.unit? = some other := by
    rw [Diagnostic.unit?, hr]
    exact store.unit?_locationOf other
  rw [hx, decide_eq_true_iff]
  exact Option.some_inj

theorem Registry.linkErrors_analyze (h : store.Registry)
    (hu : store.analyze.store.unit? id = some unit) :
    linkErrors (store.analyze.analysis.diagnosticsFor id) = unit.slots.countP (·.2.isNone) := by
  obtain ⟨library, hm, hin⟩ := h.analyze.exists_library hu
  have hf := store.unitIn?_fillSlots store.linkUnits library.id id
  obtain ⟨before, hb, _⟩ := Option.map_eq_some_iff.mp (hf.symm.trans hin)
  obtain rfl := Option.some.inj ((h.unitIn?_analyze hm hb).symm.trans hin)
  have hc := filter_diagnosticsFor_analyze (congrArg Prod.snd h.analyze.vertexGraph_eq)
    (p := (·.code.isLinkError)) (fun _ hc => ErrorCode.phase?_of_isLinkError hc) id
  rw [linkErrors, List.countP_eq_length_filter, hc, ← List.countP_eq_length_filter, reports,
    h.linkDiagnostics_at hm hb]
  exact (store.log_linkUnit library id before).2

end Store

/-- No link error is dropped or invented: after an analysis of a reachable design the link errors at
a unit are as many as the slots of the unit that are left open. -/
theorem Design.Reachable.link_errors_exact {design : Design} (h : design.Reachable) :
    ∃ analysis, design.analyze.design.analysis = some analysis ∧
      design.analyze.answer = .ok analysis.diagnostics ∧
      ∀ id unit, design.analyze.design.store.unit? id = some unit →
        (analysis.diagnosticsFor id).countP (·.code.isLinkError) =
          unit.slots.countP (·.2.isNone) :=
  ⟨_, rfl, rfl, fun _ _ hu => h.grounded.built.registry.linkErrors_analyze hu⟩

/-- A pump with four open slots, and units that read its clauses or a broken context on their
way. -/
def Design.pumpUnits : List DesignUnit :=
  let pipe : Identifier := ⟨"pipe", by decide +kernel⟩
  let gasket : Identifier := ⟨"gasket", by decide +kernel⟩
  let lost : Identifier := ⟨"lost", by decide +kernel⟩
  let pump : Identifier := ⟨"pump", by decide +kernel⟩
  let leak : Identifier := ⟨"leak", by decide +kernel⟩
  let here : Identifier := ⟨"Work", by decide +kernel⟩
  let selected (first second : Identifier) : Linked Name :=
    { item := .selected (.simple first) second }
  [{ ident := gasket, body := .package none [] },
    { ident := leak, context := [.library [{ item := lost }]], body := .context },
    { ident := pump
      context := [.library [{ item := lost }, { item := pipe }],
        .use [selected pipe gasket, selected lost gasket], .context [selected pipe gasket]]
      body := .entity none none [.useClause [{ item := .simple leak }]] [] },
    { ident := ⟨"running", by decide +kernel⟩
      context := [.context [selected here leak]]
      body := .architecture { item := pump } [] [] },
    { ident := ⟨"stopped", by decide +kernel⟩, body := .architecture { item := lost } [] [] },
    { ident := gasket, body := .packageBody none [] },
    { ident := ⟨"valve", by decide +kernel⟩, body := .configuration (selected here pump) [] none },
    { ident := ⟨"drain", by decide +kernel⟩, body := .configuration (selected lost pump) [] none }]

def Design.pumps : Design :=
  let design := ((withConfig {}).createLibrary "pipe").design
  let design := (design.createLibrary "lib").design
  let design := (design.addDocument { units := pumpUnits.take 1 } ⟨0⟩).design
  (design.addDocument { units := pumpUnits.drop 1 } ⟨1⟩).design

theorem Design.pumps_link_errors : pumps.Reachable ∧
    ((pumps.analyze.design.store.units .all).map fun registered =>
      registered.unit.slots.countP (·.2.isNone)) = [0, 1, 4, 0, 1, 1, 0, 1] ∧
    ∃ analysis, pumps.analyze.design.analysis = some analysis ∧
      pumps.analyze.answer = .ok analysis.diagnostics ∧
      ∀ id unit, pumps.analyze.design.store.unit? id = some unit →
        (analysis.diagnosticsFor id).countP (·.code.isLinkError) =
          unit.slots.countP (·.2.isNone) :=
  have h : pumps.Reachable :=
    .addDocument _ _ (.addDocument _ _ (.createLibrary _ (.createLibrary _ (.start _))))
  ⟨h, by decide +kernel, h.link_errors_exact⟩

end Vhdl
