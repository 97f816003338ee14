import Mathlib.Data.List.Basic
import Vhdl.Proofs.Linking

/-! # Visible names

Clauses only add names. What is visible after a part of a context clause stays visible after the
rest of it, and contexts that were visited stay visited.
-/

namespace Vhdl

namespace Visibility

variable {v w context : Visibility} {name : String}

theorem isSome_library?_addLibrary (v : Visibility) (entry : VisibleLibrary) (name : String) :
    ((v.addLibrary entry).library? name).isSome ↔
      (v.library? name).isSome ∨ entry.name = name := by
  unfold addLibrary
  split
  · next h => exact ⟨.inl, fun hn => hn.elim id fun he => he ▸ h⟩
  · simp [library?, List.find?_append, List.find?_singleton, or_comm]

theorem isSome_package?_addPackage (v : Visibility) (entry : String × UnitId) (name : String) :
    ((v.addPackage entry).package? name).isSome ↔
      (v.package? name).isSome ∨ entry.1 = name := by
  unfold addPackage
  split
  · next h => exact ⟨.inl, fun hn => hn.elim id fun he => he ▸ h⟩
  · simp [package?, List.find?_append, List.find?_singleton, or_comm]

theorem package?_addLibrary (v : Visibility) (entry : VisibleLibrary) (name : String) :
    (v.addLibrary entry).package? name = v.package? name := by
  unfold addLibrary
  split <;> rfl

theorem library?_addPackage (v : Visibility) (entry : String × UnitId) (name : String) :
    (v.addPackage entry).library? name = v.library? name := by
  unfold addPackage
  split <;> rfl

theorem foldl_iff {β : Type} {f : Visibility → β → Visibility} {P : Visibility → Prop}
    {Q : β → Prop} (h : ∀ v x, P (f v x) ↔ P v ∨ Q x) (xs : List β) (v : Visibility) :
    P (xs.foldl f v) ↔ P v ∨ ∃ x ∈ xs, Q x := by
  induction xs generalizing v with
  | nil => simp
  | cons x xs ih => rw [List.foldl_cons, ih, h, List.exists_mem_cons_iff, or_assoc]

theorem isSome_library?_merge (v context : Visibility) (name : String) :
    ((v.merge context).library? name).isSome ↔ (v.library? name).isSome ∨
      ∃ entry ∈ context.libraries, entry.explicit = true ∧ entry.name = name := by
  rw [merge, foldl_iff (P := fun v => (v.library? name).isSome) (Q := fun _ => False) fun v x => by
      rw [library?_addPackage, or_false],
    foldl_iff (P := fun v => (v.library? name).isSome) fun v x => isSome_library?_addLibrary v x name]
  simp only [List.mem_filter, and_assoc, and_false, exists_false, or_false]

theorem isSome_package?_merge (v context : Visibility) (name : String) :
    ((v.merge context).package? name).isSome ↔ (v.package? name).isSome ∨
      ∃ entry ∈ context.packages, entry.1 = name := by
  rw [merge, foldl_iff (P := fun v => (v.package? name).isSome) fun v x =>
      isSome_package?_addPackage v x name,
    foldl_iff (P := fun v => (v.package? name).isSome) (Q := fun _ => False) fun v x => by
      rw [package?_addLibrary, or_false]]
  simp only [and_false, exists_false, or_false]

structure Within (v w : Visibility) : Prop where
  libraries : ∀ name, (v.library? name).isSome → (w.library? name).isSome
  packages : ∀ name, (v.package? name).isSome → (w.package? name).isSome

theorem Within.refl (v : Visibility) : v.Within v :=
  ⟨fun _ => id, fun _ => id⟩

theorem Within.trans {x : Visibility} (h : v.Within w) (h' : w.Within x) : v.Within x :=
  ⟨fun name hn => h'.libraries name (h.libraries name hn),
    fun name hn => h'.packages name (h.packages name hn)⟩

theorem within_addLibrary (v : Visibility) (entry : VisibleLibrary) :
    v.Within (v.addLibrary entry) :=
  ⟨fun name hn => (isSome_library?_addLibrary v entry name).mpr (.inl hn),
    fun name hn => package?_addLibrary v entry name ▸ hn⟩

theorem within_addPackage (v : Visibility) (entry : String × UnitId) :
    v.Within (v.addPackage entry) :=
  ⟨fun name hn => library?_addPackage v entry name ▸ hn,
    fun name hn => (isSome_package?_addPackage v entry name).mpr (.inl hn)⟩

theorem within_merge (v context : Visibility) : v.Within (v.merge context) :=
  ⟨fun name hn => (isSome_library?_merge v context name).mpr (.inl hn),
    fun name hn => (isSome_package?_merge v context name).mpr (.inl hn)⟩

/-- The names that a context has from its clauses are visible. -/
structure Includes (v context : Visibility) : Prop where
  libraries : ∀ entry ∈ context.libraries, entry.explicit = true → (v.library? entry.name).isSome
  packages : ∀ entry ∈ context.packages, (v.package? entry.1).isSome

theorem merge_includes (v context : Visibility) : (v.merge context).Includes context :=
  ⟨fun entry hm he => (isSome_library?_merge v context _).mpr (.inr ⟨entry, hm, he, rfl⟩),
    fun entry hm => (isSome_package?_merge v context _).mpr (.inr ⟨entry, hm, rfl⟩)⟩

theorem Includes.mono (h : v.Includes context) (hw : v.Within w) : w.Includes context :=
  ⟨fun entry hm he => hw.libraries _ (h.libraries entry hm he),
    fun entry hm => hw.packages _ (h.packages entry hm)⟩

end Visibility

/-- Names stay visible and contexts stay visited. -/
structure ClauseState.Grows (s t : ClauseState) : Prop where
  visibility : s.visibility.Within t.visibility
  visited : s.visited ⊆ t.visited

namespace ClauseState.Grows

variable {s t x : ClauseState}

theorem refl (s : ClauseState) : s.Grows s :=
  ⟨.refl _, fun _ => id⟩

theorem trans (h : s.Grows t) (h' : t.Grows x) : s.Grows x :=
  ⟨h.visibility.trans h'.visibility, fun _ hm => h'.visited (h.visited hm)⟩

theorem report (s : ClauseState) (diagnostic : Diagnostic) : s.Grows (s.report diagnostic) :=
  ⟨.refl _, fun _ => id⟩

end ClauseState.Grows

namespace Site

variable (site : Site) (state : ClauseState)

theorem grows_linkLibrary (name : Linked Identifier) :
    state.Grows (site.linkLibrary state name).2 := by
  unfold linkLibrary
  split
  · exact ⟨Visibility.within_addLibrary .., fun _ => id⟩
  · exact .report ..

theorem grows_linkUse (name : Linked Name) : state.Grows (site.linkUse state name).2 := by
  unfold linkUse
  split
  · refine ⟨?_, fun _ => id⟩
    unfold usePackage
    split
    · split
      · exact Visibility.within_addPackage ..
      · exact .refl _
    · exact .refl _
  · exact .report ..

theorem grows_reportContextReference (name : Name) :
    state.Grows (site.reportContextReference state name) := by
  unfold reportContextReference
  split
  · exact .refl state
  · exact .report ..

variable {site state} {f : UnitId → ClauseState → ClauseState}

theorem grows_linkContext (hf : ∀ id (s : ClauseState), s.Grows (f id s)) (name : Linked Name) :
    state.Grows (site.linkContext f state name).2 := by
  refine (grows_reportContextReference site state name.item).trans ?_
  unfold linkContext
  dsimp only
  split
  · exact hf ..
  · exact .report ..

theorem grows_linkClauses (hf : ∀ id (s : ClauseState), s.Grows (f id s)) (unit : DesignUnit) :
    state.Grows (site.linkClauses f state unit).2 :=
  linkClauses_inv (P := state.Grows) (fun s name _ h => h.trans (grows_linkLibrary site s name))
    (fun s name _ h => h.trans (grows_linkUse site s name))
    (fun _ name _ h => h.trans (grows_linkContext hf name)) (.refl state)

end Site

/-- A context that is imported adds to what is visible. -/
theorem Store.grows_importContext (store : Store) (depth : Nat) (id : UnitId)
    (state : ClauseState) : state.Grows (store.importContext depth id state) := by
  induction depth generalizing id state with
  | zero => exact .refl state
  | succ depth ih =>
    unfold importContext
    split
    · exact .refl state
    · dsimp only
      split
      · exact ⟨.refl _, List.subset_cons_self ..⟩
      · next library document unit _ =>
        refine ⟨Visibility.within_merge .., fun other hm => ?_⟩
        exact (Site.grows_linkClauses ih unit).visited (List.mem_cons_of_mem id hm)

end Vhdl
