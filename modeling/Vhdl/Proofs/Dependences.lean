import Vhdl.Proofs.Correspondence
import Vhdl.Proofs.Edges

/-! # Corresponding dependences

In stores that correspond and whose units are linked alike, instances are bound alike. A unit
therefore depends on what its counterpart depends on.
-/

namespace Vhdl

section Lift

variable {α β γ δ : Type} {R : α → β → Prop} {S : γ → δ → Prop}

theorem rel_findSome? {f : α → Option γ} {g : β → Option δ}
    (hf : ∀ a b, R a b → Option.Rel S (f a) (g b)) {xs : List α} {ys : List β}
    (h : List.Forall₂ R xs ys) : Option.Rel S (xs.findSome? f) (ys.findSome? g) := by
  induction h with
  | nil => exact .none
  | @cons a b xs ys hab _ ih =>
    rw [List.findSome?_cons, List.findSome?_cons]
    rcases rel_cases (hf a b hab) with ⟨hx, hy⟩ | ⟨_, _, hx, hy, hr⟩ <;> rw [hx, hy]
    · exact ih
    · exact .some hr

theorem forall₂_eraseDups [DecidableEq α] [DecidableEq β] (hR : Relator.BiUnique R) :
    (xs : List α) → (ys : List β) → List.Forall₂ R xs ys →
      List.Forall₂ R xs.eraseDups ys.eraseDups
  | [], [], .nil => .nil
  | a :: xs, b :: ys, .cons hab h => by
    rw [List.eraseDups_cons, List.eraseDups_cons]
    refine .cons hab (forall₂_eraseDups hR _ _ (List.rel_filter ?_ h))
    intro x y hxy
    have he : x = a ↔ y = b := Relator.rel_eq hR hxy hab
    simp [he]
termination_by xs => xs.length
decreasing_by exact Nat.lt_succ_of_le (List.length_filter_le _ _)

end Lift

structure Dependence.Alike (p : Pairing) (d e : Dependence) : Prop where
  target : p.Targets d.target e.target
  kind : d.kind = e.kind

variable {p : Pairing}

theorem Pairing.Targets.unit? {x y : Target} (h : p.Targets x y) :
    Option.Rel p.units x.unit? y.unit? := by
  cases h with
  | library _ => exact .none
  | unit hab => exact .some hab

theorem Visibility.Alike.libraryIds {v w : Visibility} (h : v.Alike p w) :
    List.Forall₂ p.libraries v.libraryIds w.libraryIds := by
  refine forall₂_eraseDups p.libraries_unique _ _ ?_
  rw [List.forall₂_map_left_iff, List.forall₂_map_right_iff]
  exact h.libraries.imp fun _ _ hx => hx.2.1

namespace Site

structure BoundAlike (p : Pairing) (site site' : Site) : Prop where
  store : site.store.Alike p (DesignUnit.LinkedAlike (Option.Rel p.Targets)) site'.store
  library : site.library.Alike p site'.library

variable {site site' : Site} {v w : Visibility}

theorem BoundAlike.findUnit? (h : site.BoundAlike p site') (hv : v.Alike p w) (kind : UnitKind)
    (name : Name) :
    Option.Rel p.units (site.findUnit? v kind name) (site'.findUnit? w kind name) := by
  unfold Site.findUnit?
  split
  · exact h.store.primaryOfKind? (fun _ _ hu => hu.kind) h.library ..
  · exact rel_bind (rel_bind (hv.library? _) h.store.library?) fun _ _ hl =>
      h.store.primaryOfKind? (fun _ _ hu => hu.kind) hl ..
  · exact .none

theorem BoundAlike.findArchitecture? (h : site.BoundAlike p site') {a b : UnitId}
    (hab : p.units a b) (ident : Identifier) :
    Option.Rel p.units (site.findArchitecture? a ident) (site'.findArchitecture? b ident) := by
  refine rel_bind (h.store.registered? a b hab) fun r q hr => ?_
  rw [hr.2.ident]
  exact hr.1.get? _

theorem BoundAlike.findComponent? (h : site.BoundAlike p site') (hv : v.Alike p w) (name : Name) :
    Option.Rel p.units (site.findComponent? v name) (site'.findComponent? w name) := by
  unfold Site.findComponent?
  cases name.suffix? with
  | none => exact .none
  | some ident =>
    have hl : List.Forall₂ (Library.Alike p)
        ((site.library.id :: v.libraryIds).filterMap site.store.library?)
        ((site'.library.id :: w.libraryIds).filterMap site'.store.library?) :=
      List.rel_filterMap h.store.library? (.cons h.library.id hv.libraryIds)
    exact rel_findSome? (R := Library.Alike p)
      (fun _ _ hl => h.store.primaryOfKind? (fun _ _ hu => hu.kind) hl ident .entity) hl

theorem BoundAlike.configuredUnit? (h : site.BoundAlike p site') {a b : UnitId}
    (hab : p.units a b) :
    Option.Rel p.units (site.configuredUnit? a) (site'.configuredUnit? b) := by
  refine rel_bind (h.store.unit? a b hab) fun u v hu => ?_
  refine rel_map (rel_bind (hu.body.primaryTarget .none) fun _ _ ht => ht.unit?) fun x y hxy => ?_
  rw [hu.selectedArchitecture?]
  cases v.selectedArchitecture? with
  | none => exact hxy
  | some ident =>
    simp only [Option.bind_some]
    rcases rel_cases (h.findArchitecture? hxy ident) with ⟨hs, ht⟩ | ⟨_, _, hs, ht, hr⟩ <;>
      rw [hs, ht]
    · exact hxy
    · exact hr

theorem BoundAlike.bind (h : site.BoundAlike p site') (hv : v.Alike p w) (found : FoundInstance) :
    List.Forall₂ (Dependence.Alike p) (site.bind v found).dependences
      (site'.bind w found).dependences := by
  unfold Site.bind
  split
  · next name architecture _ =>
    unfold Site.bindEntity
    rcases rel_cases (h.findUnit? hv .entity name) with ⟨hs, ht⟩ | ⟨a, b, hs, ht, hab⟩ <;>
      simp only [hs, ht]
    · exact .nil
    · cases architecture with
      | none => exact .cons ⟨.unit hab, rfl⟩ .nil
      | some ident =>
        dsimp only
        rcases rel_cases (h.findArchitecture? hab ident) with ⟨hs, ht⟩ | ⟨_, _, hs, ht, hr⟩ <;>
          simp only [hs, ht]
        · exact .cons ⟨.unit hab, rfl⟩ .nil
        · exact .cons ⟨.unit hr, rfl⟩ .nil
  · next name _ =>
    unfold Site.bindComponent
    rcases rel_cases (h.findComponent? hv name) with ⟨hs, ht⟩ | ⟨a, b, hs, ht, hab⟩ <;>
      simp only [hs, ht]
    · exact .nil
    · exact .cons ⟨.unit hab, rfl⟩ .nil
  · next name _ =>
    unfold Site.bindConfiguration
    rcases rel_cases (h.findUnit? hv .configuration name) with ⟨hs, ht⟩ | ⟨a, b, hs, ht, hab⟩ <;>
      simp only [hs, ht]
    · exact .nil
    · refine .cons ⟨.unit hab, rfl⟩ ?_
      rcases rel_cases (h.configuredUnit? hab) with ⟨hs, ht⟩ | ⟨_, _, hs, ht, hr⟩ <;>
        rw [hs, ht]
      · exact .nil
      · exact .cons ⟨.unit hr, rfl⟩ .nil

end Site

section Unit

variable {u v : DesignUnit}

theorem forall₂_toList {x y : Option Target} (h : Option.Rel p.Targets x y) (kind : EdgeKind) :
    List.Forall₂ (Dependence.Alike p) (x.toList.map (⟨·, kind⟩)) (y.toList.map (⟨·, kind⟩)) := by
  cases h with
  | none => exact .nil
  | some h => exact .cons ⟨h, rfl⟩ .nil

theorem forall₂_targets {α : Type} {xs ys : List (Linked α)}
    (h : List.Forall₂ (fun x y => x.item = y.item ∧ Option.Rel p.Targets x.target y.target) xs ys)
    (kind : EdgeKind) :
    List.Forall₂ (Dependence.Alike p) ((xs.filterMap Linked.target).map (⟨·, kind⟩))
      ((ys.filterMap Linked.target).map (⟨·, kind⟩)) := by
  rw [List.forall₂_map_left_iff, List.forall₂_map_right_iff]
  exact (List.rel_filterMap (fun _ _ hr => hr.2) h).imp fun _ _ ht => ⟨ht, rfl⟩

theorem DesignUnit.LinkedAlike.primaryTarget (h : u.LinkedAlike (Option.Rel p.Targets) v) :
    Option.Rel p.Targets u.primaryTarget v.primaryTarget :=
  h.body.primaryTarget .none

theorem DesignUnit.LinkedAlike.references (h : u.LinkedAlike (Option.Rel p.Targets) v) :
    List.Forall₂ (Dependence.Alike p) u.references v.references := by
  unfold DesignUnit.references
  rw [h.kind]
  refine List.rel_append (List.rel_append (List.rel_append (forall₂_targets h.libraryNames _)
    (forall₂_targets h.useNames _)) (forall₂_targets h.contextNames _)) ?_
  split
  · exact forall₂_toList h.primaryTarget _
  · exact .nil

theorem DesignUnit.LinkedAlike.implemented (h : u.LinkedAlike (Option.Rel p.Targets) v)
    (kind : UnitKind) (edge : EdgeKind) :
    List.Forall₂ (Dependence.Alike p) (u.implemented kind edge) (v.implemented kind edge) := by
  unfold DesignUnit.implemented
  rw [h.kind]
  split
  · exact forall₂_toList h.primaryTarget _
  · exact .nil

end Unit

namespace Store.Alike

variable {s t : Store} {r q : RegisteredUnit} {v w : Visibility}

theorem bindings (h : s.Alike p (DesignUnit.LinkedAlike (Option.Rel p.Targets)) t)
    (hv : v.Alike p w) (hl : r.library.Alike p q.library)
    (hu : r.unit.LinkedAlike (Option.Rel p.Targets) q.unit) :
    List.Forall₂ (Dependence.Alike p) ((s.bindings v r).flatMap Binding.dependences)
      ((t.bindings w q).flatMap Binding.dependences) := by
  have hsite : Site.BoundAlike p ⟨s, r.library, r.location⟩ ⟨t, q.library, q.location⟩ := ⟨h, hl⟩
  unfold Store.bindings
  rw [hu.kind, hu.statements]
  split
  · rw [List.flatMap_map, List.flatMap_map]
    refine List.rel_flatMap (R := Eq) (List.forall₂_same.mpr fun _ _ => rfl) ?_
    rintro found _ rfl
    exact hsite.bind hv found
  · exact .nil

/-- Corresponding units depend on what corresponds. -/
theorem dependencesOf (h : s.Alike p (DesignUnit.LinkedAlike (Option.Rel p.Targets)) t)
    (hv : v.Alike p w) (hl : r.library.Alike p q.library)
    (hu : r.unit.LinkedAlike (Option.Rel p.Targets) q.unit) :
    List.Forall₂ (Dependence.Alike p) (s.dependencesOf v r) (t.dependencesOf w q) :=
  List.rel_append (List.rel_append (List.rel_append hu.references (hu.implemented ..))
    (hu.implemented ..)) (h.bindings hv hl hu)

end Store.Alike

end Vhdl
