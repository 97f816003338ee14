import Vhdl.Proofs.CircularDependencies
import Vhdl.Proofs.PredefinedPackages

/-! # Predefined libraries

The libraries `std` and `ieee` can be loaded into every design. They depend on nothing outside of
them and on no package in a circle, so that an analysis has nothing to report at their units.
-/

namespace Vhdl

theorem not_rel_self_of_acc {α : Type} {r : α → α → Prop} {a : α} (h : Acc r a) : ¬ r a a := by
  induction h with
  | intro a _ ih => exact fun hr => ih a hr hr

namespace Store

variable {store : Store} {entry : Identifier × PredefinedPackage} {library : Library}
  {place : Nat} {id : UnitId} {unit : DesignUnit}

section Cycles

variable {x y : Nat}

theorem Registry.exists_slot_of_step (h : store.Registry) (hl : library ∈ store.libraries)
    (hu : store.unitIn? library.id id = some unit) (hk : unit.kind ≠ .architecture)
    (hx : store.analyze.analysis.dependency.target? x = some (.unit id))
    (hs : store.analyze.analysis.dependency.Step x y) :
    ∃ kind target, store.analyze.analysis.dependency.target? y = some target ∧
      (kind, some target) ∈ (store.linkUnit library id unit).unit.slots := by
  obtain ⟨⟨_, _, kind⟩, he, rfl, rfl⟩ := hs
  obtain ⟨_, registered, target, hsource, htarget, hr, hd⟩ :=
    (h.analyze.edge_iff_dependence store.visibilityOf store.dependency_analyze).mp he
  obtain rfl := DependencyGraph.unit_unique hx hsource
  obtain ⟨_, _, hin⟩ := h.analyze.registered?_iff.mp hr
  obtain ⟨_, hunit⟩ := unitIn?_unique hin (h.unitIn?_analyze hl hu)
  refine ⟨kind, target, htarget, hunit ▸ DesignUnit.mem_slots_iff.mpr ?_⟩
  have hnone : store.analyze.store.bindings (store.visibilityOf registered.id) registered = [] := by
    rw [bindings, if_neg]
    rwa [hunit, kind_linkUnit]
  rw [dependencesOf, hnone] at hd
  simpa using hd

def Settles (store : Store) (x : Nat) : Prop :=
  Acc (Function.swap store.analyze.analysis.dependency.Step) x

theorem Registry.settles_library (h : store.Registry) {owner : LibraryId}
    (hx : store.analyze.analysis.dependency.target? x = some (.library owner)) :
    store.Settles x := by
  refine ⟨_, fun y hs => ?_⟩
  obtain ⟨_, hu⟩ := h.faithful_analyze.exists_unit_of_step hs
  cases hx.symm.trans hu

namespace Equipped

/-- Each path from a predefined package comes to an end: it runs backwards through the table. -/
theorem settles_package (hq : store.Equipped) (hp : store.PackageAt place id)
    (hx : store.analyze.analysis.dependency.target? x = some (.unit id)) : store.Settles x := by
  induction place using Nat.strong_induction_on generalizing id x with
  | _ place ih =>
    obtain ⟨entry, he, owner, ⟨library, hl, hn⟩, hin⟩ := hp
    obtain ⟨hm, rfl⟩ := hq.registry.library?_iff.mp hl
    refine ⟨_, fun y hs => ?_⟩
    obtain ⟨kind, target, hy, hslot⟩ := hq.registry.exists_slot_of_step hm hin nofun hx hs
    rcases hq.target_of_declaration he hm hn hslot with
      ⟨_, rfl⟩ | ⟨earlier, hlt, found, hf, rfl⟩
    · exact hq.registry.settles_library hy
    · exact ih earlier hlt hf hy

theorem settles (hq : store.Equipped) (he : entry ∈ Predefined.table[place]?)
    (hl : library ∈ store.libraries) (hn : library.ident.normalized = entry.1.normalized)
    (hin : store.unitIn? library.id id = some unit) (hu : unit ∈ entry.2.document.units)
    (hx : store.analyze.analysis.dependency.target? x = some (.unit id)) : store.Settles x := by
  have hnamed : store.Named entry.1 library.id :=
    ⟨library, hq.registry.library?_iff.mpr ⟨hl, rfl⟩, hn⟩
  rcases PredefinedPackage.eq_of_mem_units hu with rfl | rfl
  · exact hq.settles_package ⟨entry, he, library.id, hnamed, hin⟩ hx
  · refine ⟨_, fun y hs => ?_⟩
    obtain ⟨kind, target, hy, hslot⟩ := hq.registry.exists_slot_of_step hl hin nofun hx hs
    obtain ⟨found, hf, rfl⟩ := hq.target_of_implementation he hl hn hslot
    exact hq.settles_package hf hy

end Equipped

theorem not_entangled_of_settles
    (hs : ∀ x, store.analyze.analysis.dependency.target? x = some (.unit id) → store.Settles x)
    (other : UnitId) : ¬ store.analyze.analysis.dependency.Entangled id other := by
  rintro ⟨hne, x, y, hx, hy, hxy, hyx⟩
  rcases Relation.reflTransGen_iff_eq_or_transGen.mp hxy with rfl | hpath
  · exact hne (DependencyGraph.unit_unique hx hy)
  · have hcycle := Relation.transGen_swap.mpr (hpath.trans_left hyx)
    exact not_rel_self_of_acc (acc_transGen_iff.mpr (hs x hx)) hcycle

end Cycles

section Silence

variable {diagnostic : Diagnostic}

theorem Registry.architecture_of_mem_reports (h : store.Registry)
    (hd : diagnostic ∈ store.reports .binding) : ∃ registered,
      store.analyze.store.registered? registered.id = some registered ∧
      registered.unit.kind = .architecture ∧ diagnostic.unit? = some registered.id := by
  rw [reports, h.analyze.diagnostics_dependencies] at hd
  obtain ⟨⟨_, registered⟩, hm, hd⟩ := List.mem_flatMap.mp hd
  obtain ⟨binding, hb, hd⟩ := List.mem_filterMap.mp hd
  obtain ⟨hr, _⟩ := h.analyze.mem_placedUnits_iff.mp hm
  unfold bindings at hb
  split at hb
  · next hk =>
    obtain ⟨found, _, rfl⟩ := List.mem_map.mp hb
    refine ⟨registered, hr, hk, ?_⟩
    rw [Diagnostic.unit?, (Site.bind_report hd).1]
    rfl
  · cases hb

theorem unit?_of_mem_topLevel (hd : diagnostic ∈ store.reports .topLevel) :
    diagnostic.unit? = none := by
  unfold reports Hierarchy.topLevelDiagnostics at hd
  dsimp only at hd
  split at hd
  · cases hd
  · split at hd
    · rw [List.mem_singleton.mp hd]
      rfl
    · cases hd
  · rw [List.mem_singleton.mp hd, Hierarchy.relateCandidates,
      Diagnostic.foldl_addRelated fun candidate : String × UnitVertex =>
        (Hierarchy.locationOf candidate.1 candidate.2, "Candidate")]
    rfl

theorem unit?_of_mem_compileOrder (hd : diagnostic ∈ store.reports .compileOrder) :
    diagnostic.unit? = none := by
  obtain ⟨cycle, _, hd⟩ := List.mem_filterMap.mp hd
  split at hd
  · cases hd
  · cases hd
    rw [Diagnostic.foldl_addRelated fun id =>
      (store.analyze.store.documentLocation id, "Part of the cycle")]
    rfl

/-- Nothing is reported at the units of a predefined package. -/
theorem Equipped.diagnosticsFor_eq_nil (hq : store.Equipped)
    (he : entry ∈ Predefined.table[place]?) (hl : library ∈ store.libraries)
    (hn : library.ident.normalized = entry.1.normalized)
    (hin : store.unitIn? library.id id = some unit) (hu : unit ∈ entry.2.document.units) :
    store.analyze.analysis.diagnosticsFor id = [] := by
  have h := hq.registry
  refine List.filter_eq_nil_iff.mpr fun diagnostic hd hx => ?_
  have hx : diagnostic.unit? = some id := of_decide_eq_true hx
  rw [diagnostics_analyze] at hd
  simp only [List.mem_append] at hd
  rcases hd with (((hd | hd) | hd) | hd) | hd
  · have hlinked := h.linkDiagnostics_at hl hin
    rw [hq.diagnostics_linkUnit he hl hn hu] at hlinked
    exact List.filter_eq_nil_iff.mp hlinked diagnostic hd (decide_eq_true hx)
  · obtain ⟨registered, hr, hk, hat⟩ := h.architecture_of_mem_reports hd
    obtain rfl := Option.some.inj (hat.symm.trans hx)
    obtain ⟨_, _, hunit⟩ := h.analyze.registered?_iff.mp hr
    rw [(unitIn?_unique hunit (h.unitIn?_analyze hl hin)).2, kind_linkUnit] at hk
    rcases PredefinedPackage.eq_of_mem_units hu with rfl | rfl <;> cases hk
  · obtain ⟨units, hg, other, ho, rfl⟩ := mem_reports_cycles_iff.mp hd
    obtain rfl := Option.some.inj (unit?_circularReport.symm.trans hx)
    obtain ⟨members, hm, rfl⟩ := List.mem_map.mp hg
    obtain ⟨second, hentangled⟩ := h.faithful_analyze.exists_entangled hm ho
    exact not_entangled_of_settles (fun _ => hq.settles he hl hn hin hu) second hentangled
  · cases hx.symm.trans (unit?_of_mem_topLevel hd)
  · cases hx.symm.trans (unit?_of_mem_compileOrder hd)

end Silence

end Store

namespace Design

variable {design : Design} {ident : Identifier} {packages : List PredefinedPackage}

theorem loadPredefined_stocks (h : design.store.Registry)
    (hm : (ident, packages) ∈ Predefined.libraries) :
    ∃ library, (design.loadPredefined ident.text packages).answer = .ok library ∧
      (design.loadPredefined ident.text packages).design.store.Stocked ident library := by
  by_cases hs : ∃ library, design.store.Stocked ident library
  · obtain ⟨library, hs⟩ := hs
    obtain ⟨ha, hd⟩ := loadPredefined_of_stocked h hs packages
    exact ⟨library, ha, hd.symm ▸ hs⟩
  · obtain ⟨library, ha, hn, hc, _⟩ := loadPredefined_of_unstocked h
      (Predefined.normalized_ne_work _ hm) (not_exists.mp hs) (Predefined.nodup_keys _ hm)
    obtain ⟨unit, hu⟩ := Predefined.exists_mem_units _ hm
    obtain ⟨id, hu⟩ := (hc unit).mpr hu
    exact ⟨library, ha, hn, id, unit, hu⟩

/-- Loading answers with the library of that name. In every later design it gives the same answer
and leaves the whole design as it is. -/
def LoadsOnce (design : Design) (load : Design → Step LibraryId) (ident : Identifier) : Prop :=
  ∃ library, (load design).answer = .ok library ∧
    (load design).design.store.Named ident library ∧
    ∀ later, (load design).design.Precedes later →
      (load later).answer = .ok library ∧ (load later).design = later

theorem loadsOnce_std (h : design.store.Registry) : design.LoadsOnce loadStd Predefined.std := by
  obtain ⟨library, ha, hs⟩ := loadPredefined_stocks h Predefined.std_mem
  have hr := h.later (design.precedes_loadPredefined Predefined.std.text Predefined.stdPackages)
  refine ⟨library, ha, hs.named, fun later hl => ?_⟩
  exact loadPredefined_of_stocked (hr.later hl) (hs.later hr hl) _

theorem loadsOnce_ieee (h : design.store.Registry) :
    design.LoadsOnce loadIeee Predefined.ieee := by
  obtain ⟨first, hfirst, hstd⟩ := loadPredefined_stocks h Predefined.std_mem
  have hr := h.later (design.precedes_loadPredefined Predefined.std.text Predefined.stdPackages)
  obtain ⟨library, ha, hieee⟩ := loadPredefined_stocks hr Predefined.ieee_mem
  have hp := design.loadStd.design.precedes_loadPredefined Predefined.ieee.text
    Predefined.ieeePackages
  have hanswer : design.loadIeee.answer = .ok library := (Step.answer_andThen hfirst).trans ha
  have hdesign : design.loadIeee.design = _ := Step.design_andThen hfirst
  unfold LoadsOnce
  rw [hdesign]
  refine ⟨library, hanswer, hieee.named, fun later hl => ?_⟩
  have hlater := (hr.later hp).later hl
  obtain ⟨hx, hy⟩ : later.loadStd.answer = .ok first ∧ later.loadStd.design = later :=
    loadPredefined_of_stocked hlater ((hstd.later hr hp).later (hr.later hp) hl) _
  obtain ⟨ha', hd'⟩ := loadPredefined_of_stocked hlater (hieee.later (hr.later hp) hl)
    Predefined.ieeePackages
  rw [loadIeee, Step.answer_andThen hx, Step.design_andThen hx, hy]
  exact ⟨ha', hd'⟩

theorem equipped_loadIeee (h : design.store.Registry)
    (hs : ∀ library, ¬ design.store.Stocked Predefined.std library)
    (hi : ∀ library, ¬ design.store.Stocked Predefined.ieee library) :
    design.loadIeee.design.store.Equipped := by
  have hne : Predefined.std.normalized ≠ Predefined.ieee.normalized := by decide +kernel
  obtain ⟨first, hfirst, hstd, hcstd, hkept⟩ := loadPredefined_of_unstocked h
    (Predefined.normalized_ne_work _ Predefined.std_mem) hs
    (Predefined.nodup_keys _ Predefined.std_mem)
  have hp := design.precedes_loadPredefined Predefined.std.text Predefined.stdPackages
  have hr := h.later hp
  have hieee : ∀ library, ¬ design.loadStd.design.store.Stocked Predefined.ieee library := by
    rintro library ⟨hn, id, unit, hu⟩
    have hx : first ≠ library := by
      rintro rfl
      exact hne (hstd.normalized_eq hn)
    have hc := hkept library [] hx (h.carries_nil hi hp hn)
    exact List.not_mem_nil ((hc unit).mp ⟨id, hu⟩)
  obtain ⟨second, _, hnamed, hcarries, hkept'⟩ := loadPredefined_of_unstocked hr
    (Predefined.normalized_ne_work _ Predefined.ieee_mem) hieee
    (Predefined.nodup_keys _ Predefined.ieee_mem)
  have hp' := design.loadStd.design.precedes_loadPredefined Predefined.ieee.text
    Predefined.ieeePackages
  have hkeep := hstd.later hp'
  have hx : second ≠ first := by
    rintro rfl
    exact hne (hkeep.normalized_eq hnamed)
  have hdesign : design.loadIeee.design = _ := Step.design_andThen hfirst
  rw [hdesign]
  refine ⟨hr.later hp', List.forall_mem_cons.mpr ⟨⟨first, hkeep, hkept' _ _ hx hcstd⟩, ?_⟩⟩
  exact List.forall_mem_singleton.mpr ⟨second, hnamed, hcarries⟩

/-- The predefined libraries fit into the design. They can be loaded, and loading them again changes
nothing. If they had no unit before, then they have the units of their packages afterwards, and an
analysis reports nothing at them. -/
structure FitsPredefined (design : Design) : Prop where
  std : design.LoadsOnce loadStd Predefined.std
  ieee : design.LoadsOnce loadIeee Predefined.ieee
  silent : (∀ library, ¬ design.store.Stocked Predefined.std library) →
    (∀ library, ¬ design.store.Stocked Predefined.ieee library) →
    design.loadIeee.design.store.Equipped ∧
      ∃ analysis, design.loadIeee.design.analyze.design.analysis = some analysis ∧
        ∀ entry ∈ Predefined.libraries, ∀ library id unit,
          design.loadIeee.design.store.Named entry.1 library →
          design.loadIeee.design.store.unitIn? library id = some unit →
          analysis.diagnosticsFor id = []

/-- The predefined libraries fit into every reachable design. -/
theorem Reachable.fits_predefined (h : design.Reachable) : design.FitsPredefined where
  std := loadsOnce_std h.grounded.built.registry
  ieee := loadsOnce_ieee h.grounded.built.registry
  silent hs hi := by
    have hq := equipped_loadIeee h.grounded.built.registry hs hi
    refine ⟨hq, _, rfl, ?_⟩
    rintro ⟨ident, packages⟩ hm _ id unit hn hin
    obtain ⟨package, he, hu⟩ := hq.exists_entry hm hn hin
    obtain ⟨place, he⟩ := List.mem_iff_getElem?.mp he
    obtain ⟨library, hl, hn⟩ := hn
    obtain ⟨hmem, rfl⟩ := hq.registry.library?_iff.mp hl
    exact hq.diagnosticsFor_eq_nil he hmem hn hin hu

/-- A library `IEEE` without units, and an entity that uses a predefined package and one that does
not exist, in a standard that knows no contexts. -/
def foundry : Design :=
  let use (package : Identifier) : ContextItem :=
    .use [{ item := .selected (.simple Predefined.ieee) package }]
  let furnace : DesignUnit :=
    { ident := ⟨"furnace", by decide +kernel⟩
      context := [.library [{ item := Predefined.ieee }], use Predefined.numericStd,
        use ⟨"numeric_slag", by decide +kernel⟩]
      body := .entity none none [] [] }
  let design := ((withConfig { standard := .vhdl1993 }).createLibrary "IEEE").design
  let design := (design.createLibrary "foundry").design
  (design.addDocument { units := [furnace] } ⟨1⟩).design

theorem foundry_fits : foundry.Reachable ∧
    (∀ library, ¬ foundry.store.Stocked Predefined.std library) ∧
    (∀ library, ¬ foundry.store.Stocked Predefined.ieee library) ∧ foundry.FitsPredefined ∧
    foundry.loadIeee.design.store.numUnits = 30 ∧
    (foundry.loadIeee.design.store.reports .linking).map (·.location.name) =
      ["foundry.furnace"] := by
  have h : foundry.Reachable := .addDocument _ _ (.createLibrary _ (.createLibrary _ (.start _)))
  have hr := h.grounded.built.registry
  have hstd : foundry.loaded? Predefined.std.text = none := by decide +kernel
  have hieee : foundry.loaded? Predefined.ieee.text = none := by decide +kernel
  exact ⟨h, (loaded?_eq_none_iff hr).mp hstd, (loaded?_eq_none_iff hr).mp hieee, h.fits_predefined,
    by decide +kernel, by decide +kernel⟩

end Design

end Vhdl
