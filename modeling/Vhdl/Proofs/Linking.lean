import Vhdl.Analysis
import Vhdl.Proofs.SlotLists

/-! # Linked units

Linking fills the slots of units and changes nothing else: units stay in their documents and keep
their kinds, their identifiers and their keys. What each link of a name preserves, the link of a
whole unit preserves.
-/

namespace Vhdl

section Walk

theorem mapAccum_rel {σ τ α : Type} {R : σ → τ → Prop} {f : σ → α → α × σ} {g : τ → α → α × τ}
    {xs : List α} (hf : ∀ s t, ∀ x ∈ xs, R s t → R (f s x).2 (g t x).2) {s : σ} {t : τ}
    (h : R s t) : R (mapAccum f s xs).2 (mapAccum g t xs).2 := by
  induction xs generalizing s t with
  | nil => exact h
  | cons x xs ih =>
    exact ih (fun s t y hy => hf s t y (List.mem_cons_of_mem x hy)) (hf s t x List.mem_cons_self h)

namespace Site

variable {site : Site} {R : ClauseState → ClauseState → Prop} {P : ClauseState → Prop}
  {f g : UnitId → ClauseState → ClauseState}

theorem linkItem_rel {item : ContextItem}
    (hl : ∀ s t, ∀ name ∈ item.libraryNames, R s t →
      R (site.linkLibrary s name).2 (site.linkLibrary t name).2)
    (hu : ∀ s t, ∀ name ∈ item.useNames, R s t →
      R (site.linkUse s name).2 (site.linkUse t name).2)
    (hc : ∀ s t, ∀ name ∈ item.contextNames, R s t →
      R (site.linkContext f s name).2 (site.linkContext g t name).2) {s t : ClauseState}
    (h : R s t) : R (site.linkItem f s item).2 (site.linkItem g t item).2 := by
  cases item with
  | library names => exact mapAccum_rel hl h
  | use names => exact mapAccum_rel hu h
  | context names => exact mapAccum_rel hc h

theorem linkDecl_rel {decl : Decl} (hu : ∀ s t, ∀ name ∈ decl.useNames, R s t →
      R (site.linkUse s name).2 (site.linkUse t name).2) {s t : ClauseState} (h : R s t) :
    R (site.linkDecl s decl).2 (site.linkDecl t decl).2 := by
  cases decl with
  | useClause names => exact mapAccum_rel hu h
  | _ => exact h

theorem linkBody_rel {body : UnitBody} (hu : ∀ s t, ∀ name ∈ body.useNames, R s t →
      R (site.linkUse s name).2 (site.linkUse t name).2) {s t : ClauseState} (h : R s t) :
    R (site.linkBody s body).2 (site.linkBody t body).2 := by
  have hd : ∀ decls : List Decl, (∀ s t, ∀ name ∈ decls.flatMap Decl.useNames, R s t →
      R (site.linkUse s name).2 (site.linkUse t name).2) →
      R (mapAccum site.linkDecl s decls).2 (mapAccum site.linkDecl t decls).2 :=
    fun decls hu => mapAccum_rel (fun _ _ decl hm => linkDecl_rel fun s t name hn =>
      hu s t name (List.mem_flatMap.mpr ⟨decl, hm, hn⟩)) h
  cases body with
  | configuration primary uses block =>
    exact mapAccum_rel (fun _ _ names hm => mapAccum_rel fun s t name hn =>
      hu s t name (List.mem_flatten.mpr ⟨names, hm, hn⟩)) h
  | context => exact h
  | entity generics ports decls statements => exact hd decls hu
  | package generics decls => exact hd decls hu
  | architecture primary decls statements => exact hd decls hu
  | packageBody primary decls => exact hd decls hu

/-- A relation between two states that the links of all names of a unit keep is kept by two walks of
the unit. -/
theorem linkClauses_rel {unit : DesignUnit}
    (hl : ∀ s t, ∀ name ∈ unit.libraryNames, R s t →
      R (site.linkLibrary s name).2 (site.linkLibrary t name).2)
    (hu : ∀ s t, ∀ name ∈ unit.useNames, R s t →
      R (site.linkUse s name).2 (site.linkUse t name).2)
    (hc : ∀ s t, ∀ name ∈ unit.contextNames, R s t →
      R (site.linkContext f s name).2 (site.linkContext g t name).2) {s t : ClauseState}
    (h : R s t) : R (site.linkClauses f s unit).2 (site.linkClauses g t unit).2 := by
  have hi : ∀ s t, ∀ item ∈ unit.context, R s t →
      R (site.linkItem f s item).2 (site.linkItem g t item).2 := by
    intro s t item hm
    refine linkItem_rel (fun s t name hn => ?_) (fun s t name hn => ?_) fun s t name hn => ?_
    · exact hl s t name (List.mem_flatMap.mpr ⟨item, hm, hn⟩)
    · exact hu s t name (List.mem_append_left _ (List.mem_flatMap.mpr ⟨item, hm, hn⟩))
    · exact hc s t name (List.mem_flatMap.mpr ⟨item, hm, hn⟩)
  rw [linkClauses_eq, linkClauses_eq]
  exact linkBody_rel (fun s t name hn => hu s t name (List.mem_append_right _ hn))
    (mapAccum_rel hi h)

theorem linkClauses_inv {unit : DesignUnit}
    (hl : ∀ s, ∀ name ∈ unit.libraryNames, P s → P (site.linkLibrary s name).2)
    (hu : ∀ s, ∀ name ∈ unit.useNames, P s → P (site.linkUse s name).2)
    (hc : ∀ s, ∀ name ∈ unit.contextNames, P s → P (site.linkContext f s name).2)
    {s : ClauseState} (h : P s) : P (site.linkClauses f s unit).2 :=
  linkClauses_rel (R := fun s _ => P s) (t := s) (g := f) (fun s _ => hl s) (fun s _ => hu s)
    (fun s _ => hc s) h

end Site

end Walk

namespace DesignUnit

theorem kind_clearTargets (unit : DesignUnit) : unit.clearTargets.kind = unit.kind := by
  obtain ⟨ident, context, body, doc⟩ := unit
  cases body <;> rfl

theorem key_clearTargets (unit : DesignUnit) : unit.clearTargets.key = unit.key := by
  obtain ⟨ident, context, body, doc⟩ := unit
  cases body <;> rfl

end DesignUnit

namespace Store

variable {store : Store} {library : Library} {id : UnitId} {unit : DesignUnit}

theorem kind_linkUnit (store : Store) (library : Library) (id : UnitId) (unit : DesignUnit) :
    (store.linkUnit library id unit).unit.kind = unit.kind := by
  obtain ⟨ident, context, body, doc⟩ := unit
  cases body <;> rfl

theorem key_linkUnit (store : Store) (library : Library) (id : UnitId) (unit : DesignUnit) :
    (store.linkUnit library id unit).unit.key = unit.key := by
  obtain ⟨ident, context, body, doc⟩ := unit
  cases body <;> rfl

theorem mem_linkUnits_iff {linked : LinkedUnit} : linked ∈ store.linkUnits ↔
    ∃ library ∈ store.libraries, ∃ kind ∈ UnitKind.linkOrder, ∃ id ∈ library.unitsOfKind kind,
      ∃ unit, store.unit? id = some unit ∧ store.linkUnit library id unit = linked := by
  simp only [linkUnits, linkLibrary, List.mem_flatMap, List.mem_filterMap, Option.map_eq_some_iff]

def filled (linked : List LinkedUnit) (id : UnitId) (unit : DesignUnit) : DesignUnit :=
  match linked.find? (·.id = id) with
  | some linked => linked.unit
  | none => unit.clearTargets

theorem document?_fillSlots (store : Store) (linked : List LinkedUnit) (id : DocumentId) :
    (store.fillSlots linked).document? id = (store.document? id).map fun document =>
      { document with
        units := document.units.zipIdx.map fun (unit, index) => filled linked ⟨id, index⟩ unit } := by
  obtain ⟨index⟩ := id
  simp only [document?, fillSlots, numberedDocuments, List.map_map, List.getElem?_map,
    List.getElem?_zipIdx, Option.map_map]
  cases store.documents[index]? with
  | none => rfl
  | some document =>
    simp only [Option.map_some, Option.some.injEq, Document.mk.injEq, true_and, and_true,
      Function.comp, Nat.zero_add]
    rfl

theorem map_documents_fillSlots {β : Type} (f : Document → β)
    (hf : ∀ (document : Document) (units : List DesignUnit), f { document with units } = f document)
    (store : Store) (linked : List LinkedUnit) :
    (store.fillSlots linked).documents.map f = store.documents.map f := by
  refine List.ext_getElem? fun index => ?_
  have hd := document?_fillSlots store linked ⟨index⟩
  simp only [document?] at hd
  rw [List.getElem?_map, List.getElem?_map, hd, Option.map_map]
  congr 1
  funext document
  exact hf ..

theorem getElem?_filled (linked : List LinkedUnit) (id : DocumentId) (units : List DesignUnit)
    (index : Nat) :
    (units.zipIdx.map fun (unit, index) => filled linked ⟨id, index⟩ unit)[index]? =
      units[index]?.map (filled linked ⟨id, index⟩) := by
  simp only [List.getElem?_map, List.getElem?_zipIdx, Option.map_map]
  cases units[index]? <;> simp

theorem filled_cases (hu : store.unit? id = some unit) :
    (∃ library, filled store.linkUnits id unit = (store.linkUnit library id unit).unit) ∨
      filled store.linkUnits id unit = unit.clearTargets := by
  unfold filled
  split
  · next linked hf =>
    obtain ⟨library, _, kind, _, id', _, unit', hu', rfl⟩ :=
      mem_linkUnits_iff.mp (List.mem_of_find?_eq_some hf)
    have hi : id' = id := by simpa [linkUnit] using List.find?_some hf
    subst hi
    cases hu.symm.trans hu'
    exact .inl ⟨library, rfl⟩
  · exact .inr rfl

theorem filled_linkUnits (hu : store.unit? id = some unit) :
    (filled store.linkUnits id unit).kind = unit.kind ∧
      (filled store.linkUnits id unit).key = unit.key := by
  rcases filled_cases hu with ⟨library, hf⟩ | hf <;> rw [hf]
  · exact ⟨kind_linkUnit .., key_linkUnit ..⟩
  · exact ⟨unit.kind_clearTargets, unit.key_clearTargets⟩

end Store

end Vhdl
