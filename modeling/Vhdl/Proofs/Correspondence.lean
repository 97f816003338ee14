import Vhdl.Proofs.SlotLists

/-! # Corresponding stores

Two stores may hold the same libraries and units under different handles and with different slots.
A name that is looked up in both is then found in both, at corresponding handles, or in neither. The
units of the two stores are linked alike.
-/

namespace Vhdl

section Lift

variable {α β γ δ : Type} {R : α → β → Prop} {S : γ → δ → Prop}

theorem rel_cases {x : Option α} {y : Option β} (h : Option.Rel R x y) :
    x = none ∧ y = none ∨ ∃ a b, x = some a ∧ y = some b ∧ R a b := by
  cases h with
  | some h => exact .inr ⟨_, _, rfl, rfl, h⟩
  | none => exact .inl ⟨rfl, rfl⟩

theorem rel_bind {x : Option α} {y : Option β} {f : α → Option γ} {g : β → Option δ}
    (h : Option.Rel R x y) (hf : ∀ a b, R a b → Option.Rel S (f a) (g b)) :
    Option.Rel S (x.bind f) (y.bind g) := by
  cases h with
  | some h => exact hf _ _ h
  | none => exact .none

theorem rel_map {x : Option α} {y : Option β} {f : α → γ} {g : β → δ}
    (h : Option.Rel R x y) (hf : ∀ a b, R a b → S (f a) (g b)) :
    Option.Rel S (x.map f) (y.map g) := by
  cases h with
  | some h => exact .some (hf _ _ h)
  | none => exact .none

theorem rel_orElse {x x' : Option α} {y y' : Option β} (h : Option.Rel R x y)
    (h' : Option.Rel R x' y') : Option.Rel R (x <|> x') (y <|> y') := by
  cases h with
  | some h => exact .some h
  | none => exact h'

theorem isSome_eq_of_rel {x : Option α} {y : Option β} (h : Option.Rel R x y) :
    x.isSome = y.isSome := by
  cases h <;> rfl

theorem rel_find? {f : α → Bool} {g : β → Bool} (hf : ∀ a b, R a b → f a = g b) {xs : List α}
    {ys : List β} (h : List.Forall₂ R xs ys) : Option.Rel R (xs.find? f) (ys.find? g) := by
  induction h with
  | nil => exact .none
  | @cons a b xs ys hab _ ih =>
    rw [List.find?_cons, List.find?_cons, hf a b hab]
    cases g b with
    | true => exact .some hab
    | false => exact ih

end Lift

/-- Which handles of one store correspond to which handles of another one. No handle corresponds
to two others. -/
structure Pairing where
  libraries : LibraryId → LibraryId → Prop
  units : UnitId → UnitId → Prop
  libraries_unique : Relator.BiUnique libraries
  units_unique : Relator.BiUnique units

namespace Pairing

inductive Targets (p : Pairing) : Target → Target → Prop where
  | library {a b : LibraryId} : p.libraries a b → Targets p (.library a) (.library b)
  | unit {a b : UnitId} : p.units a b → Targets p (.unit a) (.unit b)

def same : Pairing where
  libraries := Eq
  units := Eq
  libraries_unique := ⟨fun _ _ _ h h' => h.trans h'.symm, fun _ _ _ h h' => h.symm.trans h'⟩
  units_unique := ⟨fun _ _ _ h h' => h.trans h'.symm, fun _ _ _ h h' => h.symm.trans h'⟩

theorem mem_iff (p : Pairing) {a b : UnitId} (h : p.units a b) {xs ys : List UnitId}
    (hv : List.Forall₂ p.units xs ys) : a ∈ xs ↔ b ∈ ys :=
  List.rel_mem p.units_unique h hv

end Pairing

/-- The same identifier, and corresponding units under the same keys. -/
structure Library.Alike (p : Pairing) (l m : Library) : Prop where
  id : p.libraries l.id m.id
  ident : l.ident = m.ident
  get? : ∀ key, Option.Rel p.units (l.get? key) (m.get? key)

/-- Corresponding handles stand for libraries that are alike and for units in the relation `U`. -/
structure Store.Alike (p : Pairing) (U : DesignUnit → DesignUnit → Prop) (s t : Store) :
    Prop where
  config : s.config = t.config
  count : s.unitIds.length = t.unitIds.length
  findLibrary? : ∀ ident, Option.Rel p.libraries (s.findLibrary? ident) (t.findLibrary? ident)
  library? : ∀ a b, p.libraries a b → Option.Rel (Library.Alike p) (s.library? a) (t.library? b)
  unit? : ∀ a b, p.units a b → Option.Rel U (s.unit? a) (t.unit? b)
  registered? : ∀ a b, p.units a b →
    Option.Rel (fun r q => r.library.Alike p q.library ∧ U r.unit q.unit) (s.registered? a)
      (t.registered? b)

namespace Visibility

structure Alike (p : Pairing) (v w : Visibility) : Prop where
  libraries : List.Forall₂ (fun x y => x.name = y.name ∧ p.libraries x.id y.id ∧
    x.explicit = y.explicit) v.libraries w.libraries
  packages : List.Forall₂ (fun x y => x.1 = y.1 ∧ p.units x.2 y.2) v.packages w.packages

variable {p : Pairing} {v w : Visibility}

theorem Alike.library? (h : v.Alike p w) (name : String) :
    Option.Rel p.libraries (v.library? name) (w.library? name) :=
  rel_map (rel_find? (fun x y hx => by rw [hx.1]) h.libraries) fun _ _ hx => hx.2.1

theorem Alike.package? (h : v.Alike p w) (name : String) :
    Option.Rel p.units (v.package? name) (w.package? name) :=
  rel_map (rel_find? (fun x y hx => by rw [hx.1]) h.packages) fun _ _ hx => hx.2

theorem Alike.addLibrary (h : v.Alike p w) (name : String) {a b : LibraryId}
    (hab : p.libraries a b) (explicit : Bool) :
    (v.addLibrary ⟨name, a, explicit⟩).Alike p (w.addLibrary ⟨name, b, explicit⟩) := by
  unfold Visibility.addLibrary
  rw [isSome_eq_of_rel (h.library? name)]
  split
  · exact h
  · exact ⟨List.rel_append h.libraries (.cons ⟨rfl, hab, rfl⟩ .nil), h.packages⟩

theorem Alike.addPackage (h : v.Alike p w) (name : String) {a b : UnitId} (hab : p.units a b) :
    (v.addPackage (name, a)).Alike p (w.addPackage (name, b)) := by
  unfold Visibility.addPackage
  rw [isSome_eq_of_rel (h.package? name)]
  split
  · exact h
  · exact ⟨h.libraries, List.rel_append h.packages (.cons ⟨rfl, hab⟩ .nil)⟩

theorem Alike.merge (h : v.Alike p w) {v' w' : Visibility} (h' : v'.Alike p w') :
    (v.merge v').Alike p (w.merge w') := by
  unfold Visibility.merge
  refine List.rel_foldl (P := Alike p) ?_ ?_ h'.packages
  · rintro v w h ⟨name, a⟩ ⟨_, b⟩ ⟨rfl, hab⟩
    exact h.addPackage name hab
  · refine List.rel_foldl (P := Alike p) ?_ h (List.rel_filter ?_ h'.libraries)
    · rintro v w h ⟨name, a, explicit⟩ ⟨_, b, _⟩ ⟨rfl, hab, rfl⟩
      exact h.addLibrary name hab explicit
    · rintro x y ⟨_, _, he⟩
      exact iff_of_eq (congrArg (· = true) he)

theorem alike_implicit {U : DesignUnit → DesignUnit → Prop} {s t : Store} (h : s.Alike p U t)
    {l m : Library} (hl : l.Alike p m) : (implicit s l).Alike p (implicit t m) := by
  have hown : Alike p ((({} : Visibility).addLibrary ⟨l.ident.normalized, l.id, false⟩).addLibrary
      ⟨"work", l.id, false⟩) ((({} : Visibility).addLibrary
        ⟨m.ident.normalized, m.id, false⟩).addLibrary ⟨"work", m.id, false⟩) := by
    rw [hl.ident]
    exact (Alike.addLibrary ⟨.nil, .nil⟩ _ hl.id false).addLibrary _ hl.id false
  have hstd : Option.Rel p.libraries (s.libraryNamed? "std") (t.libraryNamed? "std") := by
    unfold Store.libraryNamed?
    split
    · exact h.findLibrary? _
    · exact .none
  unfold implicit
  rcases rel_cases hstd with ⟨hs, ht⟩ | ⟨a, b, hs, ht, hab⟩ <;> rw [hs, ht]
  · exact hown
  · exact hown.addLibrary _ hab false

end Visibility

/-- Both attempts succeed with related results, or both fail, with one diagnostic if `same`. -/
inductive AttemptsAlike {α β : Type} (same : Prop) (R : α → β → Prop) :
    Except Diagnostic α → Except Diagnostic β → Prop where
  | ok {a : α} {b : β} : R a b → AttemptsAlike same R (.ok a) (.ok b)
  | error {d e : Diagnostic} : (same → d = e) → AttemptsAlike same R (.error d) (.error e)

theorem attempts_cases {α β : Type} {same : Prop} {R : α → β → Prop} {x : Except Diagnostic α}
    {y : Except Diagnostic β} (h : AttemptsAlike same R x y) :
    (∃ a b, x = .ok a ∧ y = .ok b ∧ R a b) ∨
      ∃ d e, x = .error d ∧ y = .error e ∧ (same → d = e) := by
  cases h with
  | ok h => exact .inl ⟨_, _, rfl, rfl, h⟩
  | error h => exact .inr ⟨_, _, rfl, rfl, h⟩

theorem AttemptsAlike.map {α β γ δ : Type} {same : Prop} {R : α → β → Prop} {S : γ → δ → Prop}
    {x : Except Diagnostic α} {y : Except Diagnostic β} (h : AttemptsAlike same R x y) {f : α → γ}
    {g : β → δ} (hf : ∀ a b, R a b → S (f a) (g b)) : AttemptsAlike same S (x.map f) (y.map g) := by
  cases h with
  | ok h => exact .ok (hf _ _ h)
  | error h => exact .error h

/-- What is known is alike. The diagnostics are the same if `same`. -/
structure ClauseState.Alike (p : Pairing) (same : Prop) (s t : ClauseState) : Prop where
  visibility : s.visibility.Alike p t.visibility
  visited : List.Forall₂ p.units s.visited t.visited
  diagnostics : same → s.diagnostics = t.diagnostics

theorem ClauseState.Alike.report {p : Pairing} {same : Prop} {s t : ClauseState}
    (h : s.Alike p same t) {d e : Diagnostic} (hd : same → d = e) :
    (s.report d).Alike p same (t.report e) :=
  ⟨h.visibility, h.visited, fun hs => congrArg₂ (· ++ [·]) (h.diagnostics hs) (hd hs)⟩

namespace Store.Alike

variable {p : Pairing} {U : DesignUnit → DesignUnit → Prop} {s t : Store}

theorem kindOf? (h : s.Alike p U t) (hU : ∀ u v, U u v → u.kind = v.kind) {a b : UnitId}
    (hab : p.units a b) : s.kindOf? a = t.kindOf? b := by
  unfold Store.kindOf?
  rcases rel_cases (h.unit? a b hab) with ⟨hs, ht⟩ | ⟨u, v, hs, ht, hu⟩
  · rw [hs, ht]
  · rw [hs, ht, Option.map_some, Option.map_some, hU u v hu]

theorem primaryOfKind? (h : s.Alike p U t) (hU : ∀ u v, U u v → u.kind = v.kind) {l m : Library}
    (hl : l.Alike p m) (ident : Identifier) (kind : UnitKind) :
    Option.Rel p.units (s.primaryOfKind? l ident kind) (t.primaryOfKind? m ident kind) := by
  unfold Store.primaryOfKind?
  rcases rel_cases (hl.get? (.primary ident.normalized)) with ⟨hs, ht⟩ | ⟨a, b, hs, ht, hab⟩ <;>
    rw [hs, ht]
  · exact .none
  · rw [Option.filter_some, Option.filter_some, h.kindOf? hU hab]
    split
    · exact .some hab
    · exact .none

end Store.Alike

namespace Site

structure Alike (p : Pairing) (site site' : Site) : Prop where
  store : site.store.Alike p DesignUnit.SameItems site'.store
  library : site.library.Alike p site'.library

variable {p : Pairing} {site site' : Site} {v w : Visibility}

theorem Alike.unresolved (message : String) (hs : site.location = site'.location) :
    site.unresolved message = site'.unresolved message := by
  rw [Site.unresolved, Site.unresolved, hs]

theorem Alike.resolveLibrary (h : site.Alike p site') (ident : Identifier) :
    AttemptsAlike (site.location = site'.location) p.libraries (site.resolveLibrary ident)
      (site'.resolveLibrary ident) := by
  unfold Site.resolveLibrary
  split
  · exact .ok h.library.id
  · rcases rel_cases (h.store.findLibrary? ident) with ⟨hs, ht⟩ | ⟨a, b, hs, ht, hab⟩ <;>
      rw [hs, ht]
    · exact .error (Alike.unresolved _)
    · exact .ok hab

theorem missing_eq (kind : UnitKind) (ident : Identifier) {l m : Library} (h : l.ident = m.ident) :
    missing kind ident l = missing kind ident m := by
  rw [missing, missing, Library.name, Library.name, h]

theorem Alike.resolvePrimary (h : site.Alike p site') (hv : v.Alike p w) (kind : UnitKind)
    (libraryName ident : Identifier) :
    AttemptsAlike (site.location = site'.location) p.units
      (site.resolvePrimary v kind libraryName ident)
      (site'.resolvePrimary w kind libraryName ident) := by
  unfold Site.resolvePrimary
  rcases rel_cases (rel_bind (hv.library? libraryName.normalized) h.store.library?) with
    ⟨hs, ht⟩ | ⟨l, m, hs, ht, hl⟩ <;> rw [hs, ht]
  · exact .error (Alike.unresolved _)
  · dsimp only
    rw [missing_eq kind ident hl.ident, Library.name, Library.name, hl.ident]
    rcases rel_cases (hl.get? (.primary ident.normalized)) with ⟨hs, ht⟩ | ⟨a, b, hs, ht, hab⟩ <;>
      rw [hs, ht]
    · exact .error (Alike.unresolved _)
    · dsimp only
      rw [h.store.kindOf? (fun _ _ hu => hu.kind) hab]
      split
      · exact .ok hab
      · exact .error (Alike.unresolved _)

theorem Alike.resolveUse (h : site.Alike p site') (hv : v.Alike p w) (name : Name) :
    AttemptsAlike (site.location = site'.location) p.Targets (site.resolveUse v name)
      (site'.resolveUse w name) := by
  unfold Site.resolveUse
  split
  · next first rest _ _ =>
    rcases rel_cases (hv.library? first.normalized) with ⟨hs, ht⟩ | ⟨a, b, hs, ht, hab⟩ <;>
      rw [hs, ht] <;> dsimp only
    · rcases rel_cases (hv.package? first.normalized) with ⟨hs, ht⟩ | ⟨a, b, hs, ht, hab⟩ <;>
        rw [hs, ht]
      · exact .error (Alike.unresolved _)
      · exact .ok (.unit hab)
    · cases rest with
      | nil => exact .ok (.library hab)
      | cons package rest =>
        exact (h.resolvePrimary hv .package first package).map fun _ _ hab => .unit hab
  · exact .error (Alike.unresolved _)

theorem Alike.resolveContext (h : site.Alike p site') (hv : v.Alike p w) (name : Name) :
    AttemptsAlike (site.location = site'.location) p.units (site.resolveContext v name)
      (site'.resolveContext w name) := by
  unfold Site.resolveContext
  split
  · exact h.resolvePrimary hv ..
  · exact .error (Alike.unresolved _)

theorem Alike.resolveEntity (h : site.Alike p site') (hv : v.Alike p w) (name : Name) :
    AttemptsAlike (site.location = site'.location) p.units (site.resolveEntity v name)
      (site'.resolveEntity w name) := by
  unfold Site.resolveEntity
  split
  · next ident _ =>
    rw [missing_eq _ _ h.library.ident]
    rcases rel_cases (h.store.primaryOfKind? (fun _ _ hu => hu.kind) h.library ident .entity) with
      ⟨hs, ht⟩ | ⟨a, b, hs, ht, hab⟩ <;> rw [hs, ht]
    · exact .error (Alike.unresolved _)
    · exact .ok hab
  · exact h.resolvePrimary hv ..
  · exact .error (Alike.unresolved _)

theorem Alike.resolveOwner (h : site.Alike p site') (kind : UnitKind) (ident : Identifier) :
    AttemptsAlike (site.location = site'.location) p.units (site.resolveOwner kind ident)
      (site'.resolveOwner kind ident) := by
  unfold Site.resolveOwner
  dsimp only
  rw [missing_eq _ _ h.library.ident]
  generalize (if kind = .packageBody then (UnitKind.package, ErrorCode.unresolvedPackageBody)
    else (.entity, .unresolvedArchitecture)) = expected
  rcases rel_cases (h.store.primaryOfKind? (fun _ _ hu => hu.kind) h.library ident expected.1) with
    ⟨hs, ht⟩ | ⟨a, b, hs, ht, hab⟩ <;> rw [hs, ht]
  · exact .error fun hs => by rw [hs]
  · exact .ok hab

theorem Alike.linkLibrary (h : site.Alike p site') :
    InStep (ClauseState.Alike p (site.location = site'.location))
      (NameRel.targets (Option.Rel p.Targets)).library site.linkLibrary site'.linkLibrary := by
  rintro s t ⟨ident, _⟩ ⟨_, _⟩ hq rfl
  unfold Site.linkLibrary
  rcases attempts_cases (h.resolveLibrary ident) with ⟨a, b, hs, ht, hab⟩ | ⟨d, e, hs, ht, hd⟩ <;>
    simp only [hs, ht]
  · exact ⟨⟨rfl, .some (.library hab)⟩, hq.visibility.addLibrary _ hab true, hq.visited,
      hq.diagnostics⟩
  · exact ⟨⟨rfl, .none⟩, hq.report hd⟩

theorem Alike.usePackage (h : site.Alike p site') (hv : v.Alike p w) {x y : Target}
    (ht : p.Targets x y) : (site.usePackage v x).Alike p (site'.usePackage w y) := by
  cases ht with
  | library _ => exact hv
  | @unit a b hab =>
    unfold Site.usePackage
    rcases rel_cases (h.store.unit? a b hab) with ⟨hs, ht⟩ | ⟨_, _, hs, ht, hu⟩ <;>
      simp only [hs, ht]
    · exact hv
    · rw [hu.ident]
      exact hv.addPackage _ hab

theorem Alike.linkUse (h : site.Alike p site') :
    InStep (ClauseState.Alike p (site.location = site'.location))
      (NameRel.targets (Option.Rel p.Targets)).use site.linkUse site'.linkUse := by
  rintro s t ⟨name, _⟩ ⟨_, _⟩ hq rfl
  unfold Site.linkUse
  rcases attempts_cases (h.resolveUse hq.visibility name) with
    ⟨x, y, hs, ht, hxy⟩ | ⟨d, e, hs, ht, hd⟩ <;> simp only [hs, ht]
  · exact ⟨⟨rfl, .some hxy⟩, h.usePackage hq.visibility hxy, hq.visited, hq.diagnostics⟩
  · exact ⟨⟨rfl, .none⟩, hq.report hd⟩

theorem Alike.reportContextReference (h : site.Alike p site') {s t : ClauseState}
    (hq : s.Alike p (site.location = site'.location) t) (name : Name) :
    (site.reportContextReference s name).Alike p (site.location = site'.location)
      (site'.reportContextReference t name) := by
  unfold Site.reportContextReference
  rw [h.store.config]
  split
  · exact hq
  · exact hq.report fun hs => by rw [hs]

def ImportsAlike (p : Pairing) (same : Prop) (f g : UnitId → ClauseState → ClauseState) : Prop :=
  ∀ a b s t, p.units a b → ClauseState.Alike p same s t → (f a s).Alike p same (g b t)

variable {f g : UnitId → ClauseState → ClauseState}

theorem Alike.linkContext (h : site.Alike p site')
    (hf : ImportsAlike p (site.location = site'.location) f g) :
    InStep (ClauseState.Alike p (site.location = site'.location))
      (NameRel.targets (Option.Rel p.Targets)).context (site.linkContext f)
      (site'.linkContext g) := by
  rintro s t ⟨name, _⟩ ⟨_, _⟩ hq rfl
  have hq := h.reportContextReference hq name
  unfold Site.linkContext
  rcases attempts_cases (h.resolveContext hq.visibility name) with
    ⟨a, b, hs, ht, hab⟩ | ⟨d, e, hs, ht, hd⟩ <;> simp only [hs, ht]
  · exact ⟨⟨rfl, .some (.unit hab)⟩, hf a b _ _ hab hq⟩
  · exact ⟨⟨rfl, .none⟩, hq.report hd⟩

theorem Alike.linkClauses (h : site.Alike p site')
    (hf : ImportsAlike p (site.location = site'.location) f g) {x y : Option Target}
    (hp : Option.Rel p.Targets x y) {u v : DesignUnit} (hu : u.SameItems v) {s t : ClauseState}
    (hq : s.Alike p (site.location = site'.location) t) :
    ((site.linkClauses f s u).1.withPrimary x).LinkedAlike (Option.Rel p.Targets)
        ((site'.linkClauses g t v).1.withPrimary y) ∧
      (site.linkClauses f s u).2.Alike p (site.location = site'.location)
        (site'.linkClauses g t v).2 :=
  linkClauses_rel₂ h.linkLibrary h.linkUse (h.linkContext hf) hp hu hq

end Site

namespace Store

variable {p : Pairing} {s t : Store}

/-- What is found while a context is imported is not reported, so the places do not matter. -/
theorem Alike.importContext (h : s.Alike p DesignUnit.SameItems t) (depth : Nat) {same : Prop} :
    Site.ImportsAlike p same (s.importContext depth) (t.importContext depth) := by
  induction depth generalizing same with
  | zero => exact fun _ _ _ _ _ hq => hq
  | succ depth ih =>
    intro a b x y hab hq
    unfold Store.importContext
    by_cases ha : a ∈ x.visited
    · rw [if_pos ha, if_pos ((p.mem_iff hab hq.visited).mp ha)]
      exact hq
    · rw [if_neg ha, if_neg fun hb => ha ((p.mem_iff hab hq.visited).mpr hb)]
      have hv : List.Forall₂ p.units (a :: x.visited) (b :: y.visited) := .cons hab hq.visited
      rcases rel_cases (h.registered? a b hab) with ⟨hs, ht⟩ | ⟨r, q, hs, ht, hl, hu⟩ <;>
        simp only [hs, ht]
      · exact ⟨hq.visibility, hv, hq.diagnostics⟩
      · have hsite : Site.Alike p ⟨s, r.library, s.locationOf a⟩ ⟨t, q.library, t.locationOf b⟩ :=
          ⟨h, hl⟩
        have hstart : ClauseState.Alike p (s.locationOf a = t.locationOf b)
            { visibility := .implicit s r.library, visited := a :: x.visited }
            { visibility := .implicit t q.library, visited := b :: y.visited } :=
          ⟨Visibility.alike_implicit h hl, hv, fun _ => rfl⟩
        have hinner := (hsite.linkClauses ih (.none (r := p.Targets)) hu hstart).2
        exact ⟨hq.visibility.merge hinner.visibility, hinner.visited, hq.diagnostics⟩

end Store

structure LinkedUnit.Alike (p : Pairing) (same : Prop) (x y : LinkedUnit) : Prop where
  id : p.units x.id y.id
  unit : x.unit.LinkedAlike (Option.Rel p.Targets) y.unit
  visibility : x.visibility.Alike p y.visibility
  diagnostics : same → x.diagnostics = y.diagnostics

namespace Site

variable {p : Pairing} {site site' : Site} {v w : Visibility} {u u' : DesignUnit}

theorem Alike.storeLinkClauses (h : site.Alike p site') (hv : v.Alike p w) {x y : Option Target}
    (hp : Option.Rel p.Targets x y) (hu : u.SameItems u') :
    ((site.store.linkClauses site v u).1.withPrimary x).LinkedAlike (Option.Rel p.Targets)
        ((site'.store.linkClauses site' w u').1.withPrimary y) ∧
      (site.store.linkClauses site v u).2.Alike p (site.location = site'.location)
        (site'.store.linkClauses site' w u').2 := by
  unfold Store.linkClauses
  rw [h.store.count]
  exact h.linkClauses (h.store.importContext _) hp hu ⟨hv, .nil, fun _ => rfl⟩

theorem Alike.owner? (h : site.Alike p site') (hu : u.SameItems u') :
    Option.Rel (AttemptsAlike (site.location = site'.location) p.units) (site.owner? u)
      (site'.owner? u') := by
  unfold Site.owner?
  rw [hu.primaryName?, hu.kind]
  cases u'.primaryName? with
  | none => exact .none
  | some ident => exact .some (h.resolveOwner u'.kind ident)

theorem Alike.configured? (h : site.Alike p site') (hv : v.Alike p w) (hu : u.SameItems u') :
    Option.Rel (AttemptsAlike (site.location = site'.location) p.units) (site.configured? v u)
      (site'.configured? w u') := by
  obtain ⟨ident, context, body, doc⟩ := u
  obtain ⟨ident', context', body', doc'⟩ := u'
  obtain ⟨_, _, _, hb⟩ := hu
  cases hb with
  | configuration name block _ _ => exact .some (h.resolveEntity hv name)
  | entity | package | context | architecture | packageBody => exact .none

theorem attemptUnit?_alike {same : Prop} {x y : Option (Except Diagnostic UnitId)}
    (h : Option.Rel (AttemptsAlike same p.units) x y) :
    Option.Rel p.units (attemptUnit? x) (attemptUnit? y) := by
  cases h with
  | none => exact .none
  | some h =>
    cases h with
    | ok h => exact .some h
    | error _ => exact .none

theorem attemptDiagnostics_eq {same : Prop} {x y : Option (Except Diagnostic UnitId)}
    (h : Option.Rel (AttemptsAlike same p.units) x y) (hs : same) :
    attemptDiagnostics x = attemptDiagnostics y := by
  cases h with
  | none => rfl
  | some h =>
    cases h with
    | ok _ => rfl
    | error hd => rw [hd hs]

theorem Alike.inherited (h : site.Alike p site') {a b : Option UnitId}
    (hab : Option.Rel p.units a b) : (site.inherited a).Alike p (site'.inherited b) := by
  have hi := Visibility.alike_implicit h.store h.library
  unfold Site.inherited
  rcases rel_cases (rel_bind hab h.store.unit?) with ⟨hs, ht⟩ | ⟨u, u', hs, ht, hu⟩ <;>
    simp only [hs, ht]
  · exact hi
  · exact (h.storeLinkClauses hi (.none (r := p.Targets)) hu).2.visibility

theorem Alike.unsupportedContext (h : site.Alike p site') (hu : u.SameItems u')
    (hs : site.location = site'.location) :
    site.unsupportedContext u = site'.unsupportedContext u' := by
  rw [Site.unsupportedContext, Site.unsupportedContext, hu.kind, h.store.config, hs]

end Site

theorem Store.Alike.linkUnit {p : Pairing} {s t : Store}
    (h : s.Alike p DesignUnit.SameItems t) {l m : Library} (hl : l.Alike p m) {a b : UnitId}
    (hab : p.units a b) {u v : DesignUnit} (hu : u.SameItems v) :
    (s.linkUnit l a u).Alike p (s.locationOf a = t.locationOf b) (t.linkUnit m b v) := by
  have hsite : Site.Alike p ⟨s, l, s.locationOf a⟩ ⟨t, m, t.locationOf b⟩ := ⟨h, hl⟩
  have howner := hsite.owner? hu
  have hinherited := hsite.inherited (Site.attemptUnit?_alike howner)
  have hstate := (hsite.storeLinkClauses hinherited (.none (r := p.Targets)) hu).2
  have hconfigured := hsite.configured? hstate.visibility hu
  have hprimary := rel_map (rel_orElse (Site.attemptUnit?_alike howner)
    (Site.attemptUnit?_alike hconfigured)) fun _ _ hab => Pairing.Targets.unit (p := p) hab
  refine ⟨hab, (hsite.storeLinkClauses hinherited hprimary hu).1, hstate.visibility, fun hs => ?_⟩
  exact congrArg₂ (· ++ ·) (congrArg₂ (· ++ ·) (congrArg₂ (· ++ ·)
    (hsite.unsupportedContext hu hs) (Site.attemptDiagnostics_eq howner hs))
    (hstate.diagnostics hs)) (Site.attemptDiagnostics_eq hconfigured hs)

end Vhdl
