import Vhdl.Proofs.Slots

/-! # Lists of links

The links of a unit are pushed into one list for each kind of clause while its names are walked, and
these lists are then zipped onto the names that the unit lists for each kind. Every link lands in
the slot of the name that it was made for, as if the slots were filled on the way.
-/

namespace Vhdl

theorem mapAccum_append {σ α : Type} (f : σ → α → α × σ) (s : σ) (xs ys : List α) :
    mapAccum f s (xs ++ ys) =
      ((mapAccum f s xs).1 ++ (mapAccum f (mapAccum f s xs).2 ys).1,
        (mapAccum f (mapAccum f s xs).2 ys).2) := by
  induction xs generalizing s with
  | nil => rfl
  | cons x xs ih => simp only [List.cons_append, mapAccum, ih]

theorem snd_mapAccum_append {σ α : Type} (f : σ → α → α × σ) (s : σ) (xs ys : List α) :
    (mapAccum f s (xs ++ ys)).2 = (mapAccum f (mapAccum f s xs).2 ys).2 := by
  rw [mapAccum_append]

theorem forall₂_mapAccum {σ α : Type} {f : σ → α → α × σ} {S : α → α → Prop}
    (h : ∀ s x, S x (f s x).1) (s : σ) (xs : List α) : List.Forall₂ S xs (mapAccum f s xs).1 := by
  induction xs generalizing s with
  | nil => exact .nil
  | cons x xs ih => exact .cons (h s x) (ih _)

section Links

def ContextItem.targets (clause : ClauseKind) (item : ContextItem) : List (Option Target) :=
  match clause with
  | .library => item.libraryNames.map Linked.target
  | .use => item.useNames.map Linked.target
  | .context => item.contextNames.map Linked.target

instance : Append UnitLinks where
  append a b := ⟨a.libraries ++ b.libraries, a.uses ++ b.uses, a.contexts ++ b.contexts⟩

theorem UnitLinks.append_def (a b : UnitLinks) : a ++ b =
    ⟨a.libraries ++ b.libraries, a.uses ++ b.uses, a.contexts ++ b.contexts⟩ := rfl

def contextLinks (items : List ContextItem) : UnitLinks where
  libraries := items.flatMap (ContextItem.targets .library)
  uses := items.flatMap (ContextItem.targets .use)
  contexts := items.flatMap (ContextItem.targets .context)

/-- Links that were all pushed into one of the lists. -/
def UnitLinks.only (clause : ClauseKind) (targets : List (Option Target)) : UnitLinks :=
  match clause with
  | .library => { libraries := targets }
  | .use => { uses := targets }
  | .context => { contexts := targets }

/-- The links of a unit, in the order of its names. -/
def DesignUnit.slotLists (unit : DesignUnit) : UnitLinks where
  libraries := unit.libraryNames.map Linked.target
  uses := unit.useNames.map Linked.target
  contexts := unit.contextNames.map Linked.target

theorem DesignUnit.slotLists_eq (unit : DesignUnit) : unit.slotLists =
    contextLinks unit.context ++ .only .use (unit.body.useNames.map Linked.target) := by
  simp only [slotLists, libraryNames, useNames, contextNames, List.map_flatMap, List.map_append,
    contextLinks, UnitLinks.only, UnitLinks.append_def, List.append_nil]
  rfl

end Links

section Fill

/-! Filling the slots of names with the targets of the same names leaves these names. -/

variable (more : List (Option Target)) (clause : ClauseKind)

theorem mapAccum_fill {α : Type} {xs ys : List (Linked α)}
    (h : List.Forall₂ (fun x y => x.item = y.item) xs ys) :
    mapAccum Linked.fill (ys.map Linked.target ++ more) xs = (ys, more) := by
  induction h with
  | nil => rfl
  | @cons x y _ _ hx _ ih =>
    have hset : x.set y.target = y := by
      obtain ⟨item, target⟩ := y
      cases hx
      rfl
    simp only [List.map_cons, List.cons_append, mapAccum, Linked.fill, ih, hset]

namespace ContextItem

/-- The second item if the first one is a clause of that kind. -/
def replace (clause : ClauseKind) (x y : ContextItem) : ContextItem :=
  match clause, x with
  | .library, .library _ | .use, .use _ | .context, .context _ => y
  | _, x => x

theorem fill_eq {x y : ContextItem} (h : ContextItem.Rel .items x y) :
    x.fill clause (y.targets clause ++ more) = (x.replace clause y, more) := by
  cases h with
  | library hn | use hn | context hn =>
    cases clause <;> simp [fill, targets, replace, libraryNames, useNames, contextNames,
      mapAccum_fill more hn]

theorem Rel.replace {x y : ContextItem} (h : ContextItem.Rel .items x y) :
    ContextItem.Rel .items (x.replace clause y) y := by
  have hrefl : ContextItem.Rel .items y y := rel_of_setTargets rfl
  cases h <;> cases clause <;> first | exact hrefl | constructor; assumption

theorem replace_replace_replace {x y : ContextItem} (h : ContextItem.Rel .items x y) :
    ((x.replace .library y).replace .use y).replace .context y = y := by
  cases h <;> rfl

theorem mapAccum_fill {xs ys : List ContextItem}
    (h : List.Forall₂ (ContextItem.Rel .items) xs ys) :
    mapAccum (fill clause) (ys.flatMap (targets clause) ++ more) xs =
      (List.zipWith (replace clause) xs ys, more) := by
  induction h with
  | nil => rfl
  | cons hx _ ih =>
    simp only [List.flatMap_cons, List.append_assoc, mapAccum, fill_eq _ clause hx, ih,
      List.zipWith_cons_cons]

theorem forall₂_zipWith_replace {xs ys : List ContextItem}
    (h : List.Forall₂ (ContextItem.Rel .items) xs ys) :
    List.Forall₂ (ContextItem.Rel .items) (List.zipWith (replace clause) xs ys) ys := by
  induction h with
  | nil => exact .nil
  | cons hx _ ih => exact .cons (hx.replace clause) ih

theorem zipWith_replace {xs ys : List ContextItem}
    (h : List.Forall₂ (ContextItem.Rel .items) xs ys) :
    List.zipWith (replace .context) (List.zipWith (replace .use)
      (List.zipWith (replace .library) xs ys) ys) ys = ys := by
  induction h with
  | nil => rfl
  | cons hx _ ih => simp only [List.zipWith_cons_cons, replace_replace_replace hx, ih]

end ContextItem

theorem Decl.fillUses_eq {d e : Decl} (h : Decl.Rel .items d e) :
    d.fillUses (e.useNames.map Linked.target ++ more) = (e, more) := by
  cases h with
  | useClause hn => simp [fillUses, useNames, Vhdl.mapAccum_fill more hn]
  | other decl hn =>
    rw [useNames_of_ne hn]
    unfold fillUses
    split
    · next names => exact absurd rfl (hn names)
    · rfl

theorem Decl.mapAccum_fillUses {ds es : List Decl} (h : List.Forall₂ (Decl.Rel .items) ds es) :
    mapAccum fillUses ((es.flatMap useNames).map Linked.target ++ more) ds = (es, more) := by
  induction h with
  | nil => rfl
  | cons hd _ ih =>
    simp only [List.flatMap_cons, List.map_append, List.append_assoc, mapAccum, fillUses_eq _ hd,
      ih]

theorem mapAccum_mapAccum_fill {us vs : List (List (Linked Name))}
    (h : List.Forall₂ (List.Forall₂ NameRel.items.use) us vs) :
    mapAccum (mapAccum Linked.fill) (vs.flatten.map Linked.target ++ more) us = (vs, more) := by
  induction h with
  | nil => rfl
  | cons hu _ ih =>
    simp only [List.flatten_cons, List.map_append, List.append_assoc, mapAccum, mapAccum_fill _ hu,
      ih]

theorem UnitBody.fillUses_eq {x y : UnitBody} (h : UnitBody.Rel .items Eq x y) :
    x.fillUses (y.useNames.map Linked.target) = y := by
  rw [← List.append_nil (y.useNames.map Linked.target)]
  cases h with
  | configuration name block hp hu =>
    cases hp
    simp only [fillUses, useNames, mapAccum_mapAccum_fill [] hu]
  | context => rfl
  | entity _ _ _ hd | package _ hd =>
    simp only [fillUses, useNames, mapDecls, decls, Decl.mapAccum_fillUses [] hd]
  | architecture _ _ hp hd | packageBody hp hd =>
    cases hp
    simp only [fillUses, useNames, mapDecls, decls, Decl.mapAccum_fillUses [] hd]

/-- The lists of links, zipped onto the names of a unit, give the unit that the links are of. -/
theorem DesignUnit.apply_slotLists {u v : DesignUnit} (h : u.Rel .items Eq v) :
    v.slotLists.apply u = v := by
  obtain ⟨ident, context, body, doc⟩ := u
  obtain ⟨ident', context', body', doc'⟩ := v
  obtain ⟨rfl, rfl, hc, hb⟩ := h
  have hl := ContextItem.mapAccum_fill [] .library hc
  have hc₁ := ContextItem.forall₂_zipWith_replace .library hc
  have hu := ContextItem.mapAccum_fill (body'.useNames.map Linked.target) .use hc₁
  have hx := ContextItem.mapAccum_fill [] .context (ContextItem.forall₂_zipWith_replace .use hc₁)
  rw [List.append_nil] at hl hx
  rw [slotLists_eq]
  simp only [UnitLinks.apply, UnitLinks.append_def, UnitLinks.only, contextLinks, List.append_nil,
    hl, hu, hx, ContextItem.zipWith_replace hc, UnitBody.fillUses_eq hb]

end Fill

section Collect

theorem UnitLinks.foldl_push (clause : ClauseKind) (targets : List (Option Target))
    (links : UnitLinks) : targets.foldl (·.push clause) links = links ++ only clause targets := by
  induction targets generalizing links with
  | nil => cases clause <;> simp [only, append_def]
  | cons target rest ih =>
    rw [List.foldl_cons, ih]
    cases clause <;> simp [only, append_def, push]

namespace Site

variable (site : Site) (f : UnitId → ClauseState → ClauseState)

theorem foldl_collect {α : Type} (link : ClauseState → Linked α → Linked α × ClauseState)
    (clause : ClauseKind) (links : UnitLinks) (s : ClauseState) (names : List (Linked α)) :
    names.foldl (collect link clause) (links, s) =
      (links ++ .only clause ((mapAccum link s names).1.map Linked.target),
        (mapAccum link s names).2) := by
  rw [← UnitLinks.foldl_push]
  induction names generalizing links s with
  | nil => rfl
  | cons name names ih => simp only [List.foldl_cons, collect, ih, mapAccum, List.map_cons]

theorem collectItem_eq (links : UnitLinks) (s : ClauseState) (item : ContextItem) :
    site.collectItem f (links, s) item =
      (links ++ contextLinks [(site.linkItem f s item).1], (site.linkItem f s item).2) := by
  cases item with
  | library names | use names | context names =>
    simp [collectItem, foldl_collect, linkItem, contextLinks, UnitLinks.only, UnitLinks.append_def,
      ContextItem.targets, ContextItem.libraryNames, ContextItem.useNames,
      ContextItem.contextNames]

theorem foldl_collectItem (links : UnitLinks) (s : ClauseState) (items : List ContextItem) :
    items.foldl (site.collectItem f) (links, s) =
      (links ++ contextLinks (mapAccum (site.linkItem f) s items).1,
        (mapAccum (site.linkItem f) s items).2) := by
  induction items generalizing links s with
  | nil => simp [mapAccum, contextLinks, UnitLinks.append_def]
  | cons item rest ih =>
    rw [List.foldl_cons, collectItem_eq, ih, mapAccum]
    simp [contextLinks, UnitLinks.append_def]

theorem mapAccum_linkDecl (s : ClauseState) (decls : List Decl) :
    mapAccum site.linkUse s (decls.flatMap Decl.useNames) =
      ((mapAccum site.linkDecl s decls).1.flatMap Decl.useNames,
        (mapAccum site.linkDecl s decls).2) := by
  induction decls generalizing s with
  | nil => rfl
  | cons decl rest ih =>
    have hd : mapAccum site.linkUse s decl.useNames =
        ((site.linkDecl s decl).1.useNames, (site.linkDecl s decl).2) := by
      cases decl <;> rfl
    rw [List.flatMap_cons, mapAccum_append, hd, ih]
    rfl

theorem mapAccum_flatten {σ α : Type} (g : σ → α → α × σ) (s : σ) (lists : List (List α)) :
    mapAccum g s lists.flatten =
      ((mapAccum (mapAccum g) s lists).1.flatten, (mapAccum (mapAccum g) s lists).2) := by
  induction lists generalizing s with
  | nil => rfl
  | cons xs rest ih =>
    rw [List.flatten_cons, mapAccum_append, ih]
    rfl

theorem mapAccum_linkBody (s : ClauseState) (body : UnitBody) :
    mapAccum site.linkUse s body.useNames =
      ((site.linkBody s body).1.useNames, (site.linkBody s body).2) := by
  cases body with
  | configuration entity uses block => exact mapAccum_flatten site.linkUse s uses
  | context => rfl
  | entity generics ports decls statements => exact site.mapAccum_linkDecl s decls
  | package generics decls => exact site.mapAccum_linkDecl s decls
  | architecture entity decls statements => exact site.mapAccum_linkDecl s decls
  | packageBody package decls => exact site.mapAccum_linkDecl s decls

theorem rel_linkItem (s : ClauseState) (item : ContextItem) :
    ContextItem.Rel .items item (site.linkItem f s item).1 :=
  ContextItem.rel_of_setTargets (site.setTargets_linkItem f s item none).symm

theorem rel_linkDecl (s : ClauseState) (decl : Decl) :
    Decl.Rel .items decl (site.linkDecl s decl).1 :=
  Decl.rel_of_mapUseNames (site.mapUseNames_linkDecl s decl none).symm

theorem rel_linkBody (s : ClauseState) (body : UnitBody) :
    UnitBody.Rel .items Eq body (site.linkBody s body).1 := by
  have hd := forall₂_mapAccum site.rel_linkDecl s
  cases body with
  | configuration entity uses block =>
    have hu : ∀ s x, NameRel.items.use x (site.linkUse s x).1 := by
      intro s x
      exact (congrArg Linked.item (site.set_linkUse s x none)).symm
    exact .configuration _ _ rfl (forall₂_mapAccum (forall₂_mapAccum hu) s uses)
  | context => exact .context
  | entity generics ports decls statements => exact .entity _ _ _ (hd decls)
  | package generics decls => exact .package _ (hd decls)
  | architecture entity decls statements => exact .architecture _ _ rfl (hd decls)
  | packageBody package decls => exact .packageBody rfl (hd decls)

theorem rel_fillClauses (s : ClauseState) (unit : DesignUnit) :
    unit.Rel .items Eq (site.fillClauses f s unit).1 :=
  ⟨rfl, rfl, forall₂_mapAccum (site.rel_linkItem f) s unit.context, site.rel_linkBody _ unit.body⟩

/-- The names of the context clause that were walked are as many as it has, so that the walk goes on
with the other use clauses. -/
theorem collectLinks_eq (s : ClauseState) (unit : DesignUnit) :
    site.collectLinks f s unit =
      ((site.fillClauses f s unit).1.slotLists, (site.fillClauses f s unit).2) := by
  have hlen : (contextLinks (mapAccum (site.linkItem f) s unit.context).1).uses.length =
      (unit.context.flatMap ContextItem.useNames).length := by
    have hc := forall₂_mapAccum (site.rel_linkItem f) s unit.context
    rw [(ContextItem.forall₂_useNames hc).length_eq, ← List.length_map Linked.target,
      List.map_flatMap]
    rfl
  have hdrop : unit.useNames.drop (unit.context.flatMap ContextItem.useNames).length =
      unit.body.useNames := List.drop_left
  rw [DesignUnit.slotLists_eq]
  simp only [collectLinks, foldl_collectItem, foldl_collect, UnitLinks.append_def, List.nil_append,
    hlen, hdrop, mapAccum_linkBody]
  rfl

/-- Collecting the links and zipping them onto the names fills the slots as a walk does that fills
them on the way. -/
theorem linkClauses_eq (s : ClauseState) (unit : DesignUnit) :
    site.linkClauses f s unit = site.fillClauses f s unit := by
  rw [linkClauses, collectLinks_eq]
  exact Prod.ext (DesignUnit.apply_slotLists (site.rel_fillClauses f s unit)) rfl

theorem clearTargets_linkClauses (s : ClauseState) (unit : DesignUnit) (primary : Option Target) :
    ((site.linkClauses f s unit).1.withPrimary primary).clearTargets = unit.clearTargets :=
  site.linkClauses_eq f s unit ▸ site.clearTargets_fillClauses f s unit primary

theorem linkClauses_rel₂ {site site' : Site} {f g : UnitId → ClauseState → ClauseState}
    {Q : ClauseState → ClauseState → Prop} {R : NameRel}
    (hl : InStep Q R.library site.linkLibrary site'.linkLibrary)
    (hu : InStep Q R.use site.linkUse site'.linkUse)
    (hc : InStep Q R.context (site.linkContext f) (site'.linkContext g))
    {A : Option Target → Option Target → Prop} {p q : Option Target} (hp : A p q)
    {u v : DesignUnit} (h : u.SameItems v) {s t : ClauseState} (hq : Q s t) :
    DesignUnit.Rel R A ((site.linkClauses f s u).1.withPrimary p)
        ((site'.linkClauses g t v).1.withPrimary q) ∧
      Q (site.linkClauses f s u).2 (site'.linkClauses g t v).2 := by
  rw [linkClauses_eq, linkClauses_eq]
  exact fillClauses_rel₂ hl hu hc hp h hq

end Site

end Collect

end Vhdl
