import Mathlib.Data.List.Forall2
import Vhdl.Link

/-! # Links in step

Two units that differ at most in their slots are linked in step: name after name, whatever the two
links are about. What holds between the links of any two corresponding names then holds between all
names of the linked units.
-/

namespace Vhdl

/-- What is to hold between corresponding names of library, use and context clauses. -/
structure NameRel where
  library : Linked Identifier → Linked Identifier → Prop
  use : Linked Name → Linked Name → Prop
  context : Linked Name → Linked Name → Prop

namespace NameRel

def items : NameRel where
  library x y := x.item = y.item
  use x y := x.item = y.item
  context x y := x.item = y.item

def targets (A : Option Target → Option Target → Prop) : NameRel where
  library x y := x.item = y.item ∧ A x.target y.target
  use x y := x.item = y.item ∧ A x.target y.target
  context x y := x.item = y.item ∧ A x.target y.target

end NameRel

inductive ContextItem.Rel (R : NameRel) : ContextItem → ContextItem → Prop where
  | library {xs ys : List (Linked Identifier)} :
      List.Forall₂ R.library xs ys → Rel R (.library xs) (.library ys)
  | use {xs ys : List (Linked Name)} : List.Forall₂ R.use xs ys → Rel R (.use xs) (.use ys)
  | context {xs ys : List (Linked Name)} :
      List.Forall₂ R.context xs ys → Rel R (.context xs) (.context ys)

inductive Decl.Rel (R : NameRel) : Decl → Decl → Prop where
  | useClause {xs ys : List (Linked Name)} :
      List.Forall₂ R.use xs ys → Rel R (.useClause xs) (.useClause ys)
  | other (decl : Decl) : (∀ names, decl ≠ .useClause names) → Rel R decl decl

/-- Bodies with related use clauses, and with `A` between their links to primary units. -/
inductive UnitBody.Rel (R : NameRel) (A : Option Target → Option Target → Prop) :
    UnitBody → UnitBody → Prop where
  | entity (generics ports : Option (List Interface)) {ds es : List Decl}
      (statements : List ConcStmt) : List.Forall₂ (Decl.Rel R) ds es →
      Rel R A (.entity generics ports ds statements) (.entity generics ports es statements)
  | configuration (name : Name) {x y : Option Target} {us vs : List (List (Linked Name))}
      (block : Option Name) : A x y → List.Forall₂ (List.Forall₂ R.use) us vs →
      Rel R A (.configuration ⟨name, x⟩ us block) (.configuration ⟨name, y⟩ vs block)
  | package (generics : Option (List Interface)) {ds es : List Decl} :
      List.Forall₂ (Decl.Rel R) ds es → Rel R A (.package generics ds) (.package generics es)
  | context : Rel R A .context .context
  | architecture (name : Identifier) {x y : Option Target} {ds es : List Decl}
      (statements : List ConcStmt) : A x y → List.Forall₂ (Decl.Rel R) ds es →
      Rel R A (.architecture ⟨name, x⟩ ds statements) (.architecture ⟨name, y⟩ es statements)
  | packageBody {x y : Option Target} {ds es : List Decl} : A x y →
      List.Forall₂ (Decl.Rel R) ds es → Rel R A (.packageBody x ds) (.packageBody y es)

structure DesignUnit.Rel (R : NameRel) (A : Option Target → Option Target → Prop)
    (u v : DesignUnit) : Prop where
  ident : u.ident = v.ident
  doc : u.doc = v.doc
  context : List.Forall₂ (ContextItem.Rel R) u.context v.context
  body : UnitBody.Rel R A u.body v.body

/-- The units differ at most in their slots. -/
def DesignUnit.SameItems : DesignUnit → DesignUnit → Prop :=
  DesignUnit.Rel .items fun _ _ => True

/-- The units are linked alike: `A` holds between any two corresponding slots. -/
def DesignUnit.LinkedAlike (A : Option Target → Option Target → Prop) :
    DesignUnit → DesignUnit → Prop :=
  DesignUnit.Rel (.targets A) A

def DesignUnit.withPrimary (unit : DesignUnit) (target : Option Target) : DesignUnit :=
  { unit with body := unit.body.setPrimary target }

section Clear

variable {α β : Type}

theorem forall₂_of_map_eq {f : α → β} {xs ys : List α} (h : xs.map f = ys.map f) :
    List.Forall₂ (fun x y => f x = f y) xs ys := by
  rw [← List.forall₂_map_right_iff (R := fun x z => f x = z),
    ← List.forall₂_map_left_iff (R := fun z w => z = w), List.forall₂_eq_eq_eq]
  exact h

theorem items_of_map_set {xs ys : List (Linked α)} {target : Option Target}
    (h : xs.map (·.set target) = ys.map (·.set target)) :
    List.Forall₂ (fun x y => x.item = y.item) xs ys :=
  (forall₂_of_map_eq h).imp fun _ _ he => congrArg Linked.item he

theorem ContextItem.rel_of_setTargets {x y : ContextItem}
    (h : x.setTargets none = y.setTargets none) : ContextItem.Rel .items x y := by
  cases x <;> cases y <;> simp only [setTargets, library.injEq, use.injEq, context.injEq,
    reduceCtorEq] at h
  · exact .library (items_of_map_set h)
  · exact .use (items_of_map_set h)
  · exact .context (items_of_map_set h)

theorem Decl.mapUseNames_of_ne {decl : Decl} (h : ∀ names, decl ≠ .useClause names)
    (f : List (Linked Name) → List (Linked Name)) : decl.mapUseNames f = decl := by
  unfold mapUseNames
  split
  · next names => exact absurd rfl (h names)
  · rfl

theorem Decl.rel_of_mapUseNames {x y : Decl} {target : Option Target}
    (h : x.mapUseNames (·.map (·.set target)) = y.mapUseNames (·.map (·.set target))) :
    Decl.Rel .items x y := by
  by_cases hx : ∃ xs, x = .useClause xs <;> by_cases hy : ∃ ys, y = .useClause ys
  · obtain ⟨xs, rfl⟩ := hx
    obtain ⟨ys, rfl⟩ := hy
    exact .useClause (items_of_map_set (Decl.useClause.inj h))
  · obtain ⟨xs, rfl⟩ := hx
    rw [mapUseNames_of_ne (not_exists.mp hy)] at h
    exact absurd ⟨_, h.symm⟩ hy
  · obtain ⟨ys, rfl⟩ := hy
    rw [mapUseNames_of_ne (not_exists.mp hx)] at h
    exact absurd ⟨_, h⟩ hx
  · rw [mapUseNames_of_ne (not_exists.mp hx), mapUseNames_of_ne (not_exists.mp hy)] at h
    exact h ▸ .other x (not_exists.mp hx)

theorem Decl.rels_of_map {xs ys : List Decl}
    (h : xs.map (·.mapUseNames (·.map (·.set none))) =
      ys.map (·.mapUseNames (·.map (·.set none)))) : List.Forall₂ (Decl.Rel .items) xs ys :=
  (forall₂_of_map_eq h).imp fun _ _ he => rel_of_mapUseNames he

theorem UnitBody.rel_of_setTargets {x y : UnitBody} (h : x.setTargets none = y.setTargets none) :
    UnitBody.Rel .items (fun _ _ => True) x y := by
  cases x <;> cases y <;> simp only [setTargets, mapDecls, setPrimary, Linked.set, entity.injEq,
    configuration.injEq, package.injEq, architecture.injEq, packageBody.injEq, Linked.mk.injEq,
    and_true, true_and, reduceCtorEq] at h
  · obtain ⟨rfl, rfl, hd, rfl⟩ := h
    exact .entity _ _ _ (Decl.rels_of_map hd)
  · obtain ⟨hn, hu, rfl⟩ := h
    rename_i x us block y vs
    obtain ⟨item, target⟩ := x
    obtain ⟨item', target'⟩ := y
    cases hn
    exact .configuration _ _ trivial
      ((forall₂_of_map_eq hu).imp fun _ _ he => items_of_map_set he)
  · obtain ⟨rfl, hd⟩ := h
    exact .package _ (Decl.rels_of_map hd)
  · exact .context
  · obtain ⟨hn, hd, rfl⟩ := h
    rename_i x ds statements y es
    obtain ⟨item, target⟩ := x
    obtain ⟨item', target'⟩ := y
    cases hn
    exact .architecture _ _ trivial (Decl.rels_of_map hd)
  · exact .packageBody trivial (Decl.rels_of_map h)

theorem DesignUnit.sameItems_of_clearTargets {u v : DesignUnit}
    (h : u.clearTargets = v.clearTargets) : u.SameItems v := by
  obtain ⟨ident, context, body, doc⟩ := u
  obtain ⟨ident', context', body', doc'⟩ := v
  simp only [clearTargets, setTargets, DesignUnit.mk.injEq] at h
  obtain ⟨rfl, hc, hb, rfl⟩ := h
  exact ⟨rfl, rfl, (forall₂_of_map_eq hc).imp fun _ _ he => ContextItem.rel_of_setTargets he,
    UnitBody.rel_of_setTargets hb⟩

theorem DesignUnit.SameItems.refl (unit : DesignUnit) : unit.SameItems unit :=
  sameItems_of_clearTargets rfl

end Clear

theorem ContextItem.forall₂_useNames {R : NameRel} {xs ys : List ContextItem}
    (h : List.Forall₂ (ContextItem.Rel R) xs ys) :
    List.Forall₂ R.use (xs.flatMap ContextItem.useNames) (ys.flatMap ContextItem.useNames) := by
  refine List.rel_flatMap h fun x y hx => ?_
  cases hx with
  | use h => exact h
  | library | context => exact .nil

theorem Decl.useNames_of_ne {decl : Decl} (h : ∀ names, decl ≠ .useClause names) :
    decl.useNames = [] := by
  unfold useNames
  split
  · next names => exact absurd rfl (h names)
  · rfl

theorem Decl.forall₂_useNames {R : NameRel} {ds es : List Decl}
    (h : List.Forall₂ (Decl.Rel R) ds es) :
    List.Forall₂ R.use (ds.flatMap Decl.useNames) (es.flatMap Decl.useNames) := by
  refine List.rel_flatMap h fun x y hx => ?_
  cases hx with
  | useClause hu => exact hu
  | other decl hn =>
    rw [useNames_of_ne hn]
    exact .nil

namespace UnitBody.Rel

variable {R : NameRel} {A : Option Target → Option Target → Prop} {x y : UnitBody}

theorem kind (h : UnitBody.Rel R A x y) : x.kind = y.kind := by
  cases h <;> rfl

theorem statements (h : UnitBody.Rel R A x y) : x.statements = y.statements := by
  cases h <;> rfl

theorem useNames (h : UnitBody.Rel R A x y) : List.Forall₂ R.use x.useNames y.useNames := by
  cases h with
  | configuration name block _ hu => exact List.rel_flatten hu
  | context => exact .nil
  | entity generics ports statements hd => exact Decl.forall₂_useNames hd
  | package generics hd => exact Decl.forall₂_useNames hd
  | architecture name statements _ hd => exact Decl.forall₂_useNames hd
  | packageBody _ hd => exact Decl.forall₂_useNames hd

theorem primaryTarget (h : UnitBody.Rel R A x y) (hn : A none none) :
    A x.primaryTarget y.primaryTarget := by
  cases h with
  | configuration name block hp => exact hp
  | architecture name statements hp => exact hp
  | packageBody hp => exact hp
  | entity | package | context => exact hn

end UnitBody.Rel

namespace DesignUnit.Rel

variable {R : NameRel} {A : Option Target → Option Target → Prop} {u v : DesignUnit}

theorem kind (h : u.Rel R A v) : u.kind = v.kind :=
  h.body.kind

theorem statements (h : u.Rel R A v) : u.statements = v.statements :=
  h.body.statements

theorem key (h : u.Rel R A v) : u.key = v.key := by
  obtain ⟨ident, context, body, doc⟩ := u
  obtain ⟨ident', context', body', doc'⟩ := v
  obtain ⟨rfl, rfl, _, hb⟩ := h
  cases hb <;> rfl

theorem primaryName? (h : u.Rel R A v) : u.primaryName? = v.primaryName? := by
  obtain ⟨ident, context, body, doc⟩ := u
  obtain ⟨ident', context', body', doc'⟩ := v
  obtain ⟨rfl, rfl, _, hb⟩ := h
  cases hb <;> rfl

theorem selectedArchitecture? (h : u.Rel R A v) :
    u.selectedArchitecture? = v.selectedArchitecture? := by
  obtain ⟨ident, context, body, doc⟩ := u
  obtain ⟨ident', context', body', doc'⟩ := v
  obtain ⟨rfl, rfl, _, hb⟩ := h
  cases hb <;> rfl

theorem libraryNames (h : u.Rel R A v) :
    List.Forall₂ R.library u.libraryNames v.libraryNames := by
  refine List.rel_flatMap h.context fun x y hx => ?_
  cases hx with
  | library h => exact h
  | use | context => exact .nil

theorem contextNames (h : u.Rel R A v) :
    List.Forall₂ R.context u.contextNames v.contextNames := by
  refine List.rel_flatMap h.context fun x y hx => ?_
  cases hx with
  | context h => exact h
  | use | library => exact .nil

theorem useNames (h : u.Rel R A v) : List.Forall₂ R.use u.useNames v.useNames :=
  List.rel_append (ContextItem.forall₂_useNames h.context) h.body.useNames

end DesignUnit.Rel

section Equal

theorem Linked.eq_of_targets {α : Type} {xs ys : List (Linked α)}
    (h : List.Forall₂ (fun x y => x.item = y.item ∧ x.target = y.target) xs ys) : xs = ys := by
  rw [← List.forall₂_eq_eq_eq]
  refine h.imp ?_
  rintro ⟨x, a⟩ ⟨y, b⟩ ⟨hi, ht⟩
  cases hi
  cases ht
  rfl

theorem Decl.eq_of_rel {xs ys : List Decl}
    (h : List.Forall₂ (Decl.Rel (.targets Eq)) xs ys) : xs = ys := by
  rw [← List.forall₂_eq_eq_eq]
  refine h.imp fun x y hx => ?_
  cases hx with
  | useClause h => exact congrArg Decl.useClause (Linked.eq_of_targets h)
  | other decl _ => rfl

theorem DesignUnit.LinkedAlike.eq {u v : DesignUnit} (h : u.LinkedAlike Eq v) : u = v := by
  obtain ⟨ident, context, body, doc⟩ := u
  obtain ⟨ident', context', body', doc'⟩ := v
  obtain ⟨rfl, rfl, hc, hb⟩ := h
  have hcontext : context = context' := by
    rw [← List.forall₂_eq_eq_eq]
    refine hc.imp fun x y hx => ?_
    cases hx with
    | library h => exact congrArg ContextItem.library (Linked.eq_of_targets h)
    | use h => exact congrArg ContextItem.use (Linked.eq_of_targets h)
    | context h => exact congrArg ContextItem.context (Linked.eq_of_targets h)
  have hbody : body = body' := by
    cases hb with
    | entity generics ports statements h => rw [Decl.eq_of_rel h]
    | configuration name block hp h =>
      have hu : ∀ us vs, List.Forall₂ (List.Forall₂ (NameRel.targets Eq).use) us vs → us = vs := by
        intro us vs h
        rw [← List.forall₂_eq_eq_eq]
        exact h.imp fun x y hx => Linked.eq_of_targets hx
      rw [hp, hu _ _ h]
    | package generics h => rw [Decl.eq_of_rel h]
    | context => rfl
    | architecture name statements hp h => rw [hp, Decl.eq_of_rel h]
    | packageBody hp h => rw [hp, Decl.eq_of_rel h]
  rw [hcontext, hbody]

end Equal

theorem mapAccum_forall₂ {σ τ α β : Type} {Q : σ → τ → Prop} {R S : α → β → Prop}
    {f : σ → α → α × σ} {g : τ → β → β × τ}
    (h : ∀ s t x y, Q s t → R x y → S (f s x).1 (g t y).1 ∧ Q (f s x).2 (g t y).2)
    {xs : List α} {ys : List β} (hr : List.Forall₂ R xs ys) {s : σ} {t : τ} (hq : Q s t) :
    List.Forall₂ S (mapAccum f s xs).1 (mapAccum g t ys).1 ∧
      Q (mapAccum f s xs).2 (mapAccum g t ys).2 := by
  induction hr generalizing s t with
  | nil => exact ⟨.nil, hq⟩
  | cons hx _ ih =>
    obtain ⟨hs, hq⟩ := h _ _ _ _ hq hx
    obtain ⟨hss, hq⟩ := ih hq
    exact ⟨.cons hs hss, hq⟩

namespace Site

def linkItem (site : Site) (importContext : UnitId → ClauseState → ClauseState)
    (state : ClauseState) : ContextItem → ContextItem × ClauseState
  | .library names =>
    let (names, state) := mapAccum site.linkLibrary state names
    (.library names, state)
  | .use names =>
    let (names, state) := mapAccum site.linkUse state names
    (.use names, state)
  | .context names =>
    let (names, state) := mapAccum (site.linkContext importContext) state names
    (.context names, state)

def linkDecl (site : Site) (state : ClauseState) : Decl → Decl × ClauseState
  | .useClause names =>
    let (names, state) := mapAccum site.linkUse state names
    (.useClause names, state)
  | decl => (decl, state)

def linkBody (site : Site) (state : ClauseState) : UnitBody → UnitBody × ClauseState
  | .configuration primary uses block =>
    let (uses, state) := mapAccum (mapAccum site.linkUse) state uses
    (.configuration primary uses block, state)
  | body =>
    let (decls, state) := mapAccum site.linkDecl state body.decls
    (body.mapDecls fun _ => decls, state)

/-- Link the names of a unit in the order in which they stand and fill their slots on the way. -/
def fillClauses (site : Site) (importContext : UnitId → ClauseState → ClauseState)
    (state : ClauseState) (unit : DesignUnit) : DesignUnit × ClauseState :=
  let (context, state) := mapAccum (site.linkItem importContext) state unit.context
  let (body, state) := site.linkBody state unit.body
  ({ unit with context, body }, state)

variable {site site' : Site} {f g : UnitId → ClauseState → ClauseState}

/-- The links of two names of one kind give related names and keep the states related. -/
def InStep {α : Type} (Q : ClauseState → ClauseState → Prop) (S : Linked α → Linked α → Prop)
    (link link' : ClauseState → Linked α → Linked α × ClauseState) : Prop :=
  ∀ s t x y, Q s t → x.item = y.item → S (link s x).1 (link' t y).1 ∧ Q (link s x).2 (link' t y).2

variable {Q : ClauseState → ClauseState → Prop} {R : NameRel}

theorem linkItem_rel₂ (hl : InStep Q R.library site.linkLibrary site'.linkLibrary)
    (hu : InStep Q R.use site.linkUse site'.linkUse)
    (hc : InStep Q R.context (site.linkContext f) (site'.linkContext g))
    (s t : ClauseState) (x y : ContextItem) (hq : Q s t) (h : ContextItem.Rel .items x y) :
    ContextItem.Rel R (site.linkItem f s x).1 (site'.linkItem g t y).1 ∧
      Q (site.linkItem f s x).2 (site'.linkItem g t y).2 := by
  cases h with
  | library h =>
    obtain ⟨hs, hq⟩ := mapAccum_forall₂ hl h hq
    exact ⟨.library hs, hq⟩
  | use h =>
    obtain ⟨hs, hq⟩ := mapAccum_forall₂ hu h hq
    exact ⟨.use hs, hq⟩
  | context h =>
    obtain ⟨hs, hq⟩ := mapAccum_forall₂ hc h hq
    exact ⟨.context hs, hq⟩

theorem linkDecl_rel₂ (hu : InStep Q R.use site.linkUse site'.linkUse) (s t : ClauseState)
    (x y : Decl) (hq : Q s t) (h : Decl.Rel .items x y) :
    Decl.Rel R (site.linkDecl s x).1 (site'.linkDecl t y).1 ∧
      Q (site.linkDecl s x).2 (site'.linkDecl t y).2 := by
  cases h with
  | useClause h =>
    obtain ⟨hs, hq⟩ := mapAccum_forall₂ hu h hq
    exact ⟨.useClause hs, hq⟩
  | other decl hn =>
    have hd : ∀ (site : Site) (state : ClauseState), site.linkDecl state x = (x, state) := by
      intro site state
      unfold linkDecl
      split
      · next names => exact absurd rfl (hn names)
      · rfl
    rw [hd, hd]
    exact ⟨.other x hn, hq⟩

/-- The links to primary units are set after the use clauses are linked. -/
theorem linkBody_rel₂ (hu : InStep Q R.use site.linkUse site'.linkUse)
    {A : Option Target → Option Target → Prop} {p q : Option Target} (hp : A p q)
    {x y : UnitBody} (h : UnitBody.Rel .items (fun _ _ => True) x y) {s t : ClauseState}
    (hq : Q s t) :
    UnitBody.Rel R A ((site.linkBody s x).1.setPrimary p) ((site'.linkBody t y).1.setPrimary q) ∧
      Q (site.linkBody s x).2 (site'.linkBody t y).2 := by
  cases h with
  | entity generics ports statements h =>
    obtain ⟨hs, hq⟩ := mapAccum_forall₂ (linkDecl_rel₂ hu) h hq
    exact ⟨.entity generics ports statements hs, hq⟩
  | configuration name block _ h =>
    have hstep : ∀ s t xs ys, Q s t → List.Forall₂ NameRel.items.use xs ys →
        List.Forall₂ R.use (mapAccum site.linkUse s xs).1 (mapAccum site'.linkUse t ys).1 ∧
          Q (mapAccum site.linkUse s xs).2 (mapAccum site'.linkUse t ys).2 :=
      fun _ _ _ _ hq hx => mapAccum_forall₂ hu hx hq
    obtain ⟨hs, hq⟩ := mapAccum_forall₂ hstep h hq
    exact ⟨.configuration name block hp hs, hq⟩
  | package generics h =>
    obtain ⟨hs, hq⟩ := mapAccum_forall₂ (linkDecl_rel₂ hu) h hq
    exact ⟨.package generics hs, hq⟩
  | context => exact ⟨.context, hq⟩
  | architecture name statements _ h =>
    obtain ⟨hs, hq⟩ := mapAccum_forall₂ (linkDecl_rel₂ hu) h hq
    exact ⟨.architecture name statements hp hs, hq⟩
  | packageBody _ h =>
    obtain ⟨hs, hq⟩ := mapAccum_forall₂ (linkDecl_rel₂ hu) h hq
    exact ⟨.packageBody hp hs, hq⟩

theorem fillClauses_rel₂ (hl : InStep Q R.library site.linkLibrary site'.linkLibrary)
    (hu : InStep Q R.use site.linkUse site'.linkUse)
    (hc : InStep Q R.context (site.linkContext f) (site'.linkContext g))
    {A : Option Target → Option Target → Prop} {p q : Option Target} (hp : A p q)
    {u v : DesignUnit} (h : u.SameItems v) {s t : ClauseState} (hq : Q s t) :
    DesignUnit.Rel R A ((site.fillClauses f s u).1.withPrimary p)
        ((site'.fillClauses g t v).1.withPrimary q) ∧
      Q (site.fillClauses f s u).2 (site'.fillClauses g t v).2 := by
  obtain ⟨hcontext, hq⟩ := mapAccum_forall₂ (linkItem_rel₂ hl hu hc) h.context hq
  obtain ⟨hbody, hq⟩ := linkBody_rel₂ hu hp h.body hq
  exact ⟨⟨h.ident, h.doc, hcontext, hbody⟩, hq⟩

end Site

section Kept

/-! Linking changes nothing but slots. -/

theorem map_mapAccum {σ α β : Type} {f : σ → α → α × σ} {c : α → β}
    (h : ∀ s x, c (f s x).1 = c x) (s : σ) (xs : List α) :
    (mapAccum f s xs).1.map c = xs.map c := by
  induction xs generalizing s with
  | nil => rfl
  | cons x xs ih => exact congrArg₂ List.cons (h s x) (ih _)

namespace Site

variable (site : Site) (f : UnitId → ClauseState → ClauseState) (state : ClauseState)

theorem set_linkLibrary (x : Linked Identifier) (target : Option Target) :
    (site.linkLibrary state x).1.set target = x.set target := by
  unfold linkLibrary
  split <;> rfl

theorem set_linkUse (x : Linked Name) (target : Option Target) :
    (site.linkUse state x).1.set target = x.set target := by
  unfold linkUse
  split <;> rfl

theorem set_linkContext (x : Linked Name) (target : Option Target) :
    (site.linkContext f state x).1.set target = x.set target := by
  unfold linkContext
  dsimp only
  split <;> rfl

theorem setTargets_linkItem (item : ContextItem) (target : Option Target) :
    (site.linkItem f state item).1.setTargets target = item.setTargets target := by
  cases item with
  | library names =>
    exact congrArg ContextItem.library (map_mapAccum (site.set_linkLibrary · · target) state names)
  | use names =>
    exact congrArg ContextItem.use (map_mapAccum (site.set_linkUse · · target) state names)
  | context names =>
    exact congrArg ContextItem.context
      (map_mapAccum (site.set_linkContext f · · target) state names)

theorem mapUseNames_linkDecl (decl : Decl) (target : Option Target) :
    (site.linkDecl state decl).1.mapUseNames (·.map (·.set target)) =
      decl.mapUseNames (·.map (·.set target)) := by
  cases decl with
  | useClause names =>
    exact congrArg Decl.useClause (map_mapAccum (site.set_linkUse · · target) state names)
  | _ => rfl

theorem setTargets_linkBody (body : UnitBody) (primary target : Option Target) :
    ((site.linkBody state body).1.setPrimary primary).setTargets target =
      body.setTargets target := by
  have hd : ∀ decls : List Decl, (mapAccum site.linkDecl state decls).1.map
      (·.mapUseNames (·.map (·.set target))) = decls.map (·.mapUseNames (·.map (·.set target))) :=
    map_mapAccum (site.mapUseNames_linkDecl · · target) state
  cases body with
  | entity generics ports decls statements =>
    exact congrArg (UnitBody.entity generics ports · statements) (hd decls)
  | configuration name uses block =>
    have hu : (mapAccum (mapAccum site.linkUse) state uses).1.map (·.map (·.set target)) =
        uses.map (·.map (·.set target)) :=
      map_mapAccum (fun s names => map_mapAccum (site.set_linkUse · · target) s names) state uses
    exact congrArg (UnitBody.configuration (name.set target) · block) hu
  | package generics decls => exact congrArg (UnitBody.package generics) (hd decls)
  | context => rfl
  | architecture name decls statements =>
    exact congrArg (UnitBody.architecture (name.set target) · statements) (hd decls)
  | packageBody package decls => exact congrArg (UnitBody.packageBody target) (hd decls)

theorem clearTargets_fillClauses (unit : DesignUnit) (primary : Option Target) :
    ((site.fillClauses f state unit).1.withPrimary primary).clearTargets = unit.clearTargets :=
  congrArg₂ (fun context body => { unit with context, body })
    (map_mapAccum (site.setTargets_linkItem f · · none) state unit.context)
    (site.setTargets_linkBody _ unit.body primary none)

end Site

end Kept

end Vhdl
