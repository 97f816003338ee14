import Vhdl.Proofs.Correspondence
import Vhdl.Proofs.Reachable

/-! # Fresh analyses

An analysis reads none of the links that an earlier one left in the units. Analyzing a store is
therefore the same as analyzing it without its links, and a second analysis changes nothing.
-/

namespace Vhdl

section Clear

variable {α : Type}

theorem map_set_map_set (names : List (Linked α)) :
    (names.map (·.set none)).map (·.set none) = names.map (·.set none) := by
  rw [List.map_map]
  rfl

theorem ContextItem.setTargets_setTargets (item : ContextItem) :
    (item.setTargets none).setTargets none = item.setTargets none := by
  cases item <;> simp only [setTargets, map_set_map_set]

theorem Decl.map_mapUseNames (decls : List Decl) :
    (decls.map (·.mapUseNames (·.map (·.set none)))).map (·.mapUseNames (·.map (·.set none))) =
      decls.map (·.mapUseNames (·.map (·.set none))) := by
  rw [List.map_map]
  refine List.map_congr_left fun decl _ => ?_
  cases decl with
  | useClause names => exact congrArg Decl.useClause (map_set_map_set names)
  | _ => rfl

theorem UnitBody.setTargets_setTargets (body : UnitBody) :
    (body.setTargets none).setTargets none = body.setTargets none := by
  cases body with
  | configuration primary uses block =>
    refine congrArg (UnitBody.configuration (primary.set none) · block) ?_
    rw [List.map_map]
    exact List.map_congr_left fun names _ => map_set_map_set names
  | context => rfl
  | entity generics ports decls statements =>
    exact congrArg (UnitBody.entity generics ports · statements) (Decl.map_mapUseNames decls)
  | package generics decls =>
    exact congrArg (UnitBody.package generics) (Decl.map_mapUseNames decls)
  | architecture primary decls statements =>
    exact congrArg (UnitBody.architecture (primary.set none) · statements)
      (Decl.map_mapUseNames decls)
  | packageBody primary decls =>
    exact congrArg (UnitBody.packageBody none) (Decl.map_mapUseNames decls)

theorem DesignUnit.clearTargets_clearTargets (unit : DesignUnit) :
    unit.clearTargets.clearTargets = unit.clearTargets := by
  have hc : (unit.context.map (·.setTargets none)).map (·.setTargets none) =
      unit.context.map (·.setTargets none) := by
    rw [List.map_map]
    exact List.map_congr_left fun item _ => item.setTargets_setTargets
  exact congrArg₂ (fun context body => { unit with context, body }) hc
    unit.body.setTargets_setTargets

theorem DesignUnit.sameItems_clearTargets (unit : DesignUnit) : unit.SameItems unit.clearTargets :=
  sameItems_of_clearTargets unit.clearTargets_clearTargets.symm

end Clear

def Document.clearTargets (document : Document) : Document :=
  { document with units := document.units.map DesignUnit.clearTargets }

namespace Store

def clearTargets (store : Store) : Store :=
  { store with documents := store.documents.map Document.clearTargets }

variable (store : Store) (id : UnitId)

theorem document?_clearTargets (id : DocumentId) :
    store.clearTargets.document? id = (store.document? id).map Document.clearTargets := by
  rw [document?, clearTargets, List.getElem?_map]
  rfl

theorem unit?_clearTargets :
    store.clearTargets.unit? id = (store.unit? id).map DesignUnit.clearTargets := by
  rw [unit?, unit?, document?_clearTargets]
  cases store.document? id.document with
  | none => rfl
  | some document => exact List.getElem?_map ..

theorem registered?_clearTargets :
    store.clearTargets.registered? id = (store.registered? id).map fun registered =>
      { registered with
        document := registered.document.clearTargets
        unit := registered.unit.clearTargets } := by
  unfold registered?
  rw [document?_clearTargets]
  cases store.document? id.document with
  | none => rfl
  | some document =>
    obtain ⟨path, library, units, doc⟩ := document
    have hl : store.clearTargets.library? = store.library? := rfl
    simp only [Option.map_some, Option.bind_eq_bind, Option.bind_some, Document.clearTargets,
      List.getElem?_map, hl]
    cases library with
    | none => rfl
    | some owner =>
      simp only [Option.bind_some]
      cases store.library? owner <;> cases units[id.index]? <;> rfl

theorem unitIds_clearTargets : store.clearTargets.unitIds = store.unitIds := by
  simp only [unitIds, numberedDocuments, clearTargets, List.zipIdx_map, List.map_map,
    List.flatMap_map, Function.comp_def, Prod.map, Document.clearTargets, List.length_map, id_eq]

theorem locationOf_clearTargets : store.clearTargets.locationOf id = store.locationOf id := by
  rw [locationOf, locationOf, registered?_clearTargets]
  cases store.registered? id with
  | none => rfl
  | some registered =>
    simp only [Option.map_some, RegisteredUnit.location, RegisteredUnit.key,
      DesignUnit.key_clearTargets]

theorem rel_same_targets : Option.Rel Pairing.same.Targets = Eq := by
  funext x y
  refine propext ⟨fun h => ?_, ?_⟩
  · cases h with
    | none => rfl
    | some h =>
      cases h with
      | library h => exact congrArg (some ∘ Target.library) h
      | unit h => exact congrArg (some ∘ Target.unit) h
  · rintro rfl
    cases x with
    | none => exact .none
    | some target =>
      cases target with
      | library id => exact .some (.library rfl)
      | unit id => exact .some (.unit rfl)

theorem rel_refl {α : Type} {R : α → α → Prop} (h : ∀ a, R a a) (x : Option α) :
    Option.Rel R x x := by
  cases x with
  | none => exact .none
  | some a => exact .some (h a)

theorem alike_clearTargets :
    store.Alike .same DesignUnit.SameItems store.clearTargets where
  config := rfl
  count := by rw [unitIds_clearTargets]
  findLibrary? ident := rel_refl (fun _ => rfl) _
  library? := by
    rintro id _ rfl
    exact rel_refl (fun library => ⟨rfl, rfl, fun _ => rel_refl (fun _ => rfl) _⟩) _
  unit? := by
    rintro id _ rfl
    rw [unit?_clearTargets]
    cases store.unit? id with
    | none => exact .none
    | some unit => exact .some unit.sameItems_clearTargets
  registered? := by
    rintro id _ rfl
    rw [registered?_clearTargets]
    cases store.registered? id with
    | none => exact .none
    | some registered =>
      exact .some ⟨⟨rfl, rfl, fun _ => rel_refl (fun _ => rfl) _⟩,
        registered.unit.sameItems_clearTargets⟩

end Store

theorem Visibility.Alike.eq {v w : Visibility} (h : v.Alike .same w) : v = w := by
  obtain ⟨libraries, packages⟩ := v
  obtain ⟨libraries', packages'⟩ := w
  have hl : libraries = libraries' := by
    rw [← List.forall₂_eq_eq_eq]
    refine h.libraries.imp ?_
    rintro ⟨name, id, explicit⟩ ⟨_, _, _⟩ ⟨rfl, rfl, rfl⟩
    rfl
  have hp : packages = packages' := by
    rw [← List.forall₂_eq_eq_eq]
    refine h.packages.imp ?_
    rintro ⟨name, id⟩ ⟨_, _⟩ ⟨rfl, rfl⟩
    rfl
  rw [hl, hp]

theorem LinkedUnit.Alike.eq {x y : LinkedUnit} {same : Prop} (h : x.Alike .same same y)
    (hs : same) : x = y := by
  obtain ⟨id, unit, visibility, diagnostics⟩ := x
  obtain ⟨id', unit', visibility', diagnostics'⟩ := y
  obtain ⟨hi, hu, hv, hd⟩ := h
  rw [Store.rel_same_targets] at hu
  rw [LinkedUnit.mk.injEq]
  exact ⟨hi, hu.eq, hv.eq, hd hs⟩

namespace Store

variable (store : Store)

theorem linkUnits_clearTargets : store.clearTargets.linkUnits = store.linkUnits := by
  refine List.flatMap_congr fun library _ => List.flatMap_congr fun kind _ =>
    List.filterMap_congr fun id _ => ?_
  rw [unit?_clearTargets]
  cases hu : store.unit? id with
  | none => rfl
  | some unit =>
    have hl : library.Alike .same library := ⟨rfl, rfl, fun _ => rel_refl (fun _ => rfl) _⟩
    have ha := store.alike_clearTargets.linkUnit hl (rfl : id = id) unit.sameItems_clearTargets
    exact congrArg some (ha.eq (store.locationOf_clearTargets id).symm).symm

variable {store}

theorem ext_document? {documents documents' : List Document} {config : Config}
    {libraries : List Library} {names : Table String LibraryId}
    (h : ∀ id, document? ⟨config, libraries, names, documents⟩ id =
      document? ⟨config, libraries, names, documents'⟩ id) :
    (⟨config, libraries, names, documents⟩ : Store) = ⟨config, libraries, names, documents'⟩ :=
  congrArg (Store.mk config libraries names) (List.ext_getElem? fun index => h ⟨index⟩)

theorem filled_clearTargets (linked : List LinkedUnit) (id : UnitId) (unit : DesignUnit) :
    filled linked id unit.clearTargets = filled linked id unit := by
  unfold filled
  split
  · rfl
  · exact unit.clearTargets_clearTargets

theorem fillSlots_clearTargets (store : Store) (linked : List LinkedUnit) :
    store.clearTargets.fillSlots linked = store.fillSlots linked := by
  refine ext_document? fun id => ?_
  change (store.clearTargets.fillSlots linked).document? id = (store.fillSlots linked).document? id
  rw [document?_fillSlots, document?_fillSlots, document?_clearTargets, Option.map_map]
  refine congrArg (Option.map · (store.document? id)) (funext fun document => ?_)
  refine congrArg (fun units => { document with units }) (List.ext_getElem? fun index => ?_)
  rw [getElem?_filled, getElem?_filled, Document.clearTargets, List.getElem?_map, Option.map_map]
  exact congrArg (Option.map · document.units[index]?)
    (funext fun unit => filled_clearTargets linked _ unit)

theorem clearTargets_filled {id : UnitId} {unit : DesignUnit} (hu : store.unit? id = some unit) :
    (filled store.linkUnits id unit).clearTargets = unit.clearTargets := by
  rcases filled_cases hu with ⟨library, hf⟩ | hf <;> rw [hf]
  · exact Site.clearTargets_linkClauses ..
  · exact unit.clearTargets_clearTargets

theorem clearTargets_fillSlots (store : Store) :
    (store.fillSlots store.linkUnits).clearTargets = store.clearTargets := by
  refine ext_document? fun id => ?_
  change (store.fillSlots store.linkUnits).clearTargets.document? id =
    store.clearTargets.document? id
  rw [document?_clearTargets, document?_clearTargets, document?_fillSlots, Option.map_map]
  cases hd : store.document? id with
  | none => rfl
  | some document =>
    refine congrArg (fun units => some { document with units }) (List.ext_getElem? fun index => ?_)
    rw [List.getElem?_map, getElem?_filled, List.getElem?_map, Option.map_map]
    cases hu : document.units[index]? with
    | none => rfl
    | some unit =>
      have hunit : store.unit? ⟨id, index⟩ = some unit := by rw [unit?, hd, Option.bind_some, hu]
      exact congrArg some (clearTargets_filled hunit)

/-- An analysis is the same with and without the links of an earlier one. -/
theorem analyze_clearTargets (store : Store) : store.clearTargets.analyze = store.analyze := by
  simp only [analyze, linkUnits_clearTargets, fillSlots_clearTargets]

theorem analyze_analyze (store : Store) : store.analyze.store.analyze = store.analyze :=
  calc store.analyze.store.analyze
    _ = store.analyze.store.clearTargets.analyze := (analyze_clearTargets _).symm
    _ = store.clearTargets.analyze := by rw [← store.clearTargets_fillSlots]; rfl
    _ = store.analyze := store.analyze_clearTargets

end Store

/-- In a reachable design a second analysis gives the diagnostics of the analysis at hand and leaves
the design as it is. Whatever an earlier analysis left behind, an analysis gives the same. -/
theorem Design.analysis_fresh :
    (∀ design : Design, design.Reachable → ∀ analysis, design.analysis = some analysis →
      design.analyze.answer = .ok analysis.diagnostics ∧ design.analyze.design = design) ∧
    ∀ d e : Design, d.store.clearTargets = e.store.clearTargets → d.analyze = e.analyze := by
  refine ⟨fun design h analysis ha => ?_, fun d e h => ?_⟩
  · obtain ⟨store, _, hs, rfl⟩ := h.grounded.analyzed analysis ha
    obtain ⟨filled, cached⟩ := design
    dsimp only at hs ha
    subst hs ha
    simp only [Design.analyze, store.analyze_analyze, and_self]
  · have hanalyze : d.store.analyze = e.store.analyze := by
      rw [← d.store.analyze_clearTargets, h, e.store.analyze_clearTargets]
    simp only [Design.analyze, hanalyze]

/-- A design whose entity is renamed, after an analysis has linked the architecture to it or before
any analysis. -/
def Design.renamedEntity (analyzed : Bool) : Design :=
  let meter : Identifier := ⟨"meter", by decide +kernel⟩
  let units : List DesignUnit :=
    [{ ident := meter, body := .entity none none [] [] },
      { ident := ⟨"flow", by decide +kernel⟩, body := .architecture { item := meter } [] [] }]
  let design := ((withConfig {}).createLibrary "lib").design
  let design := (design.addDocument { units } ⟨0⟩).design
  let design := if analyzed then design.analyze.design else design
  (design.modifyUnit ⟨⟨0⟩, 0⟩ (·.rename ⟨"gauge", by decide +kernel⟩)).design

theorem Design.renamedEntity_fresh :
    ((renamedEntity true).store.unit? ⟨⟨0⟩, 1⟩).map DesignUnit.primaryTarget =
        some (some (.unit ⟨⟨0⟩, 0⟩)) ∧
      ((renamedEntity false).store.unit? ⟨⟨0⟩, 1⟩).map DesignUnit.primaryTarget = some none ∧
      (renamedEntity true).analyze = (renamedEntity false).analyze ∧
      (renamedEntity true).analyze.design.analyze.design = (renamedEntity true).analyze.design := by
  have hreach : (renamedEntity true).analyze.design.Reachable :=
    .analyze (.modifyUnit _ _ (.analyze (.addDocument _ _ (.createLibrary _ (.start _)))))
  exact ⟨by decide +kernel, by decide +kernel, analysis_fresh.2 _ _ rfl,
    (analysis_fresh.1 _ hreach _ rfl).2⟩

end Vhdl
