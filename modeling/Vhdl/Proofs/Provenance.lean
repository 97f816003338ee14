import Vhdl.Proofs.Contexts
import Vhdl.Proofs.SameContent

/-! # Where visible names come from

Importing a context ends although contexts may refer to each other in circles: the bound on the
depth is never met, so the bounded import is the import without a bound. A unit sees its own library
under the name `work`, and whatever else it sees is named by a clause in a unit that it reads.
-/

namespace Vhdl

namespace Store

section Imports

variable {store : Store} {s t : ClauseState} {id : UnitId}

/-- What is known after the clauses of a registered unit, if `nested` tells what is known after a
context reference. -/
def walkBy (store : Store) (nested : UnitId → ClauseState → ClauseState)
    (registered : RegisteredUnit) (visited : List UnitId) : ClauseState :=
  (Site.linkClauses ⟨store, registered.library, store.locationOf registered.id⟩ nested
    { visibility := .implicit store registered.library, visited } registered.unit).2

/-- The import of a context without a bound on the depth. A context that was not visited is walked,
and there is an import for every reference that the walk may meet. -/
inductive Imports (store : Store) : UnitId → ClauseState → ClauseState → Prop where
  | visited {id : UnitId} {s : ClauseState} : id ∈ s.visited → Imports store id s s
  | missing {id : UnitId} {s : ClauseState} : id ∉ s.visited → store.registered? id = none →
      Imports store id s { s with visited := id :: s.visited }
  | context {id : UnitId} {s : ClauseState} {registered : RegisteredUnit}
      {nested : UnitId → ClauseState → ClauseState} :
      id ∉ s.visited → store.registered? id = some registered →
      (∀ other ∈ store.unitIds, ∀ t : ClauseState, id :: s.visited ⊆ t.visited →
        Imports store other t (nested other t)) →
      Imports store id s
        { s with
          visibility :=
            s.visibility.merge (store.walkBy nested registered (id :: s.visited)).visibility
          visited := (store.walkBy nested registered (id :: s.visited)).visited }

/-- A depth that covers the units that were not visited suffices. -/
theorem imports_importContext {depth : Nat} (hd : store.unvisited s.visited ≤ depth)
    (hid : id ∈ store.unitIds) : store.Imports id s (store.importContext depth id s) := by
  induction depth generalizing id s with
  | zero => exact .visited (mem_visited_of_unvisited hid hd)
  | succ depth ih =>
    by_cases hm : id ∈ s.visited
    · rw [importContext_of_mem _ hm]
      exact .visited hm
    · cases hr : store.registered? id with
      | none =>
        rw [importContext_of_none depth hm hr]
        exact .missing hm hr
      | some registered =>
        rw [importContext_of_some depth hm hr]
        -- One more unit is visited in the walk, so one step less of the depth suffices there.
        refine .context hm hr fun other ho t ht => ih ?_ ho
        have hlt := unvisited_cons_lt hid hm
        have hle : store.unvisited t.visited ≤ store.unvisited (id :: s.visited) :=
          unvisited_le_of_subset ht
        omega

theorem walkBy_congr {f g : UnitId → ClauseState → ClauseState} {visited : List UnitId}
    (hg : ∀ id (s : ClauseState), s.Grows (f id s))
    (h : ∀ other ∈ store.unitIds, ∀ t : ClauseState, visited ⊆ t.visited → f other t = g other t)
    (registered : RegisteredUnit) :
    store.walkBy f registered visited = store.walkBy g registered visited := by
  refine (Site.linkClauses_rel (R := fun s t => s = t ∧ visited ⊆ s.visited) ?_ ?_ ?_
    ⟨rfl, fun _ => id⟩).1
  · rintro s _ name _ ⟨rfl, hv⟩
    exact ⟨rfl, fun _ hm => (Site.grows_linkLibrary _ s name).visited (hv hm)⟩
  · rintro s _ name _ ⟨rfl, hv⟩
    exact ⟨rfl, fun _ hm => (Site.grows_linkUse _ s name).visited (hv hm)⟩
  · rintro s _ name _ ⟨rfl, hv⟩
    refine ⟨?_, fun _ hm => (Site.grows_linkContext hg name).visited (hv hm)⟩
    unfold Site.linkContext
    dsimp only
    split
    · next id hr =>
      refine h id (mem_unitIds_of_kindOf? (kindOf?_of_resolveContext hr)) _ ?_
      rw [(Site.reportContextReference_eq ..).2]
      exact hv
    · rfl

theorem Imports.importContext_eq (h : store.Imports id s t) (hid : id ∈ store.unitIds) {depth : Nat}
    (hd : store.unvisited s.visited ≤ depth) : store.importContext depth id s = t := by
  induction h generalizing depth with
  | visited hm => exact importContext_of_mem depth hm
  | @missing id s hn hr =>
    have hlt := unvisited_cons_lt hid hn
    obtain ⟨depth, rfl⟩ : ∃ k, depth = k + 1 := ⟨depth - 1, by omega⟩
    exact importContext_of_none depth hn hr
  | @context id s registered nested hn hr _ ih =>
    have hlt := unvisited_cons_lt hid hn
    obtain ⟨depth, rfl⟩ : ∃ k, depth = k + 1 := ⟨depth - 1, by omega⟩
    have hwalk : store.walk depth registered (id :: s.visited) =
        store.walkBy nested registered (id :: s.visited) := by
      refine walkBy_congr (store.grows_importContext depth) (fun other ho t ht => ?_) registered
      have hle : store.unvisited t.visited ≤ store.unvisited (id :: s.visited) :=
        unvisited_le_of_subset ht
      exact ih other ho t ht ho (by omega)
    rw [importContext_of_some depth hn hr, hwalk]

theorem imports_iff (hid : id ∈ store.unitIds) :
    store.Imports id s t ↔ store.importContext store.unitIds.length id s = t := by
  have hd : store.unvisited s.visited ≤ store.unitIds.length := List.length_filter_le _ _
  exact ⟨fun h => h.importContext_eq hid hd, fun h => h ▸ imports_importContext hd hid⟩

end Imports

def HasUnit (store : Store) (id : UnitId) (P : Library → DesignUnit → Prop) : Prop :=
  ∃ library ∈ store.libraries, ∃ unit, store.unitIn? library.id id = some unit ∧ P library unit

def NamesLibrary (store : Store) (id : UnitId) (library : LibraryId) : Prop :=
  store.HasUnit id fun own unit =>
    ∃ name ∈ unit.libraryNames, store.Denotes own name.item.normalized library

/-- A use name of the unit starts with a library and the package in it. -/
def UsesPackage (store : Store) (id package : UnitId) : Prop :=
  store.HasUnit id fun own unit =>
    ∃ name ∈ unit.useNames, ∃ first second rest all,
      name.item.segments? = some (first :: second :: rest, all) ∧
        store.SelectedDenotes own .package [first, second] (.unit package)

def RefersTo (store : Store) (id context : UnitId) : Prop :=
  store.HasUnit id fun own unit =>
    ∃ name ∈ unit.contextNames, ∃ segments, name.item.segments? = some (segments, false) ∧
      store.SelectedDenotes own .context segments (.unit context)

def Completes (store : Store) (id primary : UnitId) : Prop :=
  store.HasUnit id fun own unit => ∃ ident, unit.primaryName? = some ident ∧
    store.Declares own.id (if unit.kind = .packageBody then .package else .entity)
      ident.normalized primary

/-- The units whose clauses count for a unit: the unit, its primary unit, and the contexts that are
reached from these by context references. -/
inductive Reads (store : Store) (id : UnitId) : UnitId → Prop where
  | self : Reads store id id
  | primary {other : UnitId} : store.Completes id other → Reads store id other
  | context {other context : UnitId} :
      Reads store id other → store.RefersTo other context → Reads store id context

end Store

/-- What a clause made visible is named by a clause of one of the units, and what is visible without
a clause is the own library or `std`. -/
structure Visibility.Justified (store : Store) (own : Library) (units : UnitId → Prop)
    (v : Visibility) : Prop where
  explicit : ∀ entry ∈ v.libraries, entry.explicit = true →
    ∃ id, units id ∧ store.NamesLibrary id entry.id
  implicit : ∀ entry ∈ v.libraries, entry.explicit = false →
    entry.id = own.id ∨ store.libraryNamed? "std" = some entry.id
  packages : ∀ entry ∈ v.packages, ∃ id, units id ∧ store.UsesPackage id entry.2

namespace Visibility

variable {store : Store} {own other : Library} {units : UnitId → Prop} {v w : Visibility}

theorem Justified.addLibrary (h : v.Justified store own units) {entry : VisibleLibrary}
    (he : entry.explicit = true → ∃ id, units id ∧ store.NamesLibrary id entry.id)
    (hi : entry.explicit = false → entry.id = own.id ∨ store.libraryNamed? "std" = some entry.id) :
    (v.addLibrary entry).Justified store own units where
  explicit other ho := by
    rcases mem_addLibrary ho with ho | ⟨rfl, _⟩
    · exact h.explicit other ho
    · exact he
  implicit other ho := by
    rcases mem_addLibrary ho with ho | ⟨rfl, _⟩
    · exact h.implicit other ho
    · exact hi
  packages := packages_addLibrary v entry ▸ h.packages

theorem Justified.addPackage (h : v.Justified store own units) {entry : String × UnitId}
    (hp : ∃ id, units id ∧ store.UsesPackage id entry.2) :
    (v.addPackage entry).Justified store own units := by
  unfold Visibility.addPackage
  split
  · exact h
  · refine ⟨h.explicit, h.implicit, fun other ho => ?_⟩
    rcases List.mem_append.mp ho with ho | ho
    · exact h.packages other ho
    · obtain rfl := List.mem_singleton.mp ho
      exact hp

/-- Only what a clause made visible is exported, whatever library the context belongs to. -/
theorem Justified.merge (h : v.Justified store own units) (h' : w.Justified store other units) :
    (v.merge w).Justified store own units := by
  refine foldl_inv (fun v hv entry he => hv.addPackage (h'.packages entry he)) ?_
  refine foldl_inv (fun v hv entry he => ?_) h
  obtain ⟨hm, hx⟩ := List.mem_filter.mp he
  exact hv.addLibrary (h'.explicit entry hm) fun hf => absurd (hx.symm.trans hf) nofun

theorem justified_implicit (store : Store) (own : Library) (units : UnitId → Prop) :
    (implicit store own).Justified store own units := by
  have hempty : Justified store own units {} := ⟨by simp, by simp, by simp⟩
  have hname : Justified store own units
      (({} : Visibility).addLibrary ⟨own.ident.normalized, own.id, false⟩) :=
    hempty.addLibrary nofun fun _ => .inl rfl
  have hown : Justified store own units ((({} : Visibility).addLibrary
      ⟨own.ident.normalized, own.id, false⟩).addLibrary ⟨"work", own.id, false⟩) :=
    hname.addLibrary nofun fun _ => .inl rfl
  unfold implicit
  split
  · next id hs => exact hown.addLibrary nofun fun _ => .inr hs
  · exact hown

end Visibility

namespace Site

variable {site : Site} {units : UnitId → Prop} {s : ClauseState} {id : UnitId} {unit : DesignUnit}

def Traced (site : Site) (units : UnitId → Prop) (s : ClauseState) : Prop :=
  s.visibility.Sound site.store site.library ∧
    s.visibility.Justified site.store site.library units

theorem Registered.hasUnit (h : site.Registered)
    (hu : site.store.unitIn? site.library.id id = some unit) {P : Library → DesignUnit → Prop}
    (hp : P site.library unit) : site.store.HasUnit id P :=
  ⟨site.library, h.library, unit, hu, hp⟩

theorem Registered.traced_linkLibrary (h : site.Registered)
    (hu : site.store.unitIn? site.library.id id = some unit) (hid : units id)
    {name : Linked Identifier} (hn : name ∈ unit.libraryNames) (hs : site.Traced units s) :
    site.Traced units (site.linkLibrary s name).2 := by
  refine ⟨(h.linkLibrary name hs.1).2, ?_⟩
  unfold Site.linkLibrary
  split
  · next library hr =>
    refine hs.2.addLibrary (fun _ => ⟨id, hid, h.hasUnit hu ?_⟩) nofun
    exact ⟨name, hn, h.denotes_of_resolveLibrary hr⟩
  · exact hs.2

theorem justified_usePackage {v : Visibility} (hv : v.Justified site.store site.library units)
    {package : UnitId} (hp : ∃ id, units id ∧ site.store.UsesPackage id package) :
    (site.usePackage v (.unit package)).Justified site.store site.library units := by
  unfold usePackage
  dsimp only
  split
  · exact hv.addPackage hp
  · exact hv

/-- A package that is used by its simple name was visible before, so a clause with its library
stands behind it. -/
theorem Registered.traced_linkUse (h : site.Registered)
    (hu : site.store.unitIn? site.library.id id = some unit) (hid : units id)
    {name : Linked Name} (hn : name ∈ unit.useNames) (hs : site.Traced units s) :
    site.Traced units (site.linkUse s name).2 := by
  refine ⟨(h.linkUse name hs.1).2, ?_⟩
  unfold Site.linkUse
  split
  · next target hr =>
    obtain ⟨first, rest, all, hseg, hcases⟩ := resolveUse_cases hr
    rcases hcases with ⟨_, rfl, _, rfl⟩ | ⟨second, rest, package, rfl, hp, rfl⟩ | ⟨package, hp, rfl⟩
    · exact hs.2
    · refine justified_usePackage hs.2 ⟨id, hid, h.hasUnit hu ?_⟩
      exact ⟨name, hn, first, second, rest, all, hseg, h.selected_of_resolvePrimary hs.1 hp⟩
    · obtain ⟨entry, hf, rfl⟩ := Option.map_eq_some_iff.mp hp
      exact justified_usePackage hs.2 (hs.2.packages entry (List.mem_of_find?_eq_some hf))
  · exact hs.2

theorem Registered.traced_linkContext (h : site.Registered)
    (hu : site.store.unitIn? site.library.id id = some unit)
    {f : UnitId → ClauseState → ClauseState}
    (hc : ∀ context, site.store.RefersTo id context → ∀ s, site.Traced units s →
      site.Traced units (f context s))
    {name : Linked Name} (hn : name ∈ unit.contextNames) (hs : site.Traced units s) :
    site.Traced units (site.linkContext f s name).2 := by
  have hs : site.Traced units (site.reportContextReference s name.item) := by
    unfold Traced
    rwa [(site.reportContextReference_eq s name.item).1]
  unfold Site.linkContext
  dsimp only
  split
  · next context hr =>
    obtain ⟨segments, hseg, hsel⟩ := h.selected_of_resolveContext hs.1 hr
    exact hc context (h.hasUnit hu ⟨name, hn, segments, hseg, hsel⟩) _ hs
  · exact hs

theorem Registered.traced_linkClauses (h : site.Registered)
    (hu : site.store.unitIn? site.library.id id = some unit) (hid : units id)
    {f : UnitId → ClauseState → ClauseState}
    (hc : ∀ context, site.store.RefersTo id context → ∀ s, site.Traced units s →
      site.Traced units (f context s)) (hs : site.Traced units s) :
    site.Traced units (site.linkClauses f s unit).2 :=
  linkClauses_inv (fun _ _ hn hs => h.traced_linkLibrary hu hid hn hs)
    (fun _ _ hn hs => h.traced_linkUse hu hid hn hs)
    (fun _ _ hn hs => h.traced_linkContext hu hc hn hs) hs

end Site

theorem attemptUnit?_eq_some_iff {attempt : Option (Except Diagnostic UnitId)} {id : UnitId} :
    attemptUnit? attempt = some id ↔ attempt = some (.ok id) := by
  rcases attempt with _ | _ | _ <;> simp [attemptUnit?, Except.toOption]

namespace Store

variable {store : Store} {library : Library} {id : UnitId} {unit : DesignUnit}
  {units : UnitId → Prop}

theorem Registry.traced_implicit (h : store.Registry) (hm : library ∈ store.libraries)
    (location : Location) (visited : List UnitId) :
    Site.Traced ⟨store, library, location⟩ units
      { visibility := .implicit store library, visited } :=
  ⟨Visibility.sound_implicit h hm, Visibility.justified_implicit store library units⟩

/-- If the units contain all contexts that they refer to, then an import makes nothing else visible
than what their clauses name. -/
theorem Registry.traced_importContext (h : store.Registry)
    (hclosed : ∀ id context, units id → store.RefersTo id context → units context)
    {location : Location} (depth : Nat) (hid : units id) {s : ClauseState}
    (hs : Site.Traced ⟨store, library, location⟩ units s) :
    Site.Traced ⟨store, library, location⟩ units (store.importContext depth id s) := by
  induction depth generalizing library location id s with
  | zero => exact hs
  | succ depth ih =>
    refine ⟨h.sound_importContext (depth + 1) id hs.1, ?_⟩
    by_cases hm : id ∈ s.visited
    · rw [importContext_of_mem _ hm]
      exact hs.2
    · cases hr : store.registered? id with
      | none =>
        rw [importContext_of_none depth hm hr]
        exact hs.2
      | some registered =>
        rw [importContext_of_some depth hm hr]
        obtain rfl := (registered?_eq_some_iff.mp hr).1
        obtain ⟨hl, _, hu⟩ := h.registered?_iff.mp hr
        have hinner : Site.Registered
            ⟨store, registered.library, store.locationOf registered.id⟩ := ⟨h, hl⟩
        refine hs.2.merge (hinner.traced_linkClauses hu hid (fun context hc s hs => ?_)
          (h.traced_implicit hl _ _)).2
        exact ih (hclosed registered.id context hid hc) hs

theorem Registry.traced_linkClauses (h : store.Registry) (hm : library ∈ store.libraries)
    (hclosed : ∀ id context, units id → store.RefersTo id context → units context)
    (hu : store.unitIn? library.id id = some unit) (hid : units id) {location : Location}
    {v : Visibility} (hv : Site.Traced ⟨store, library, location⟩ units { visibility := v }) :
    Site.Traced ⟨store, library, location⟩ units
      (store.linkClauses ⟨store, library, location⟩ v unit).2 :=
  have hsite : Site.Registered ⟨store, library, location⟩ := ⟨h, hm⟩
  hsite.traced_linkClauses hu hid
    (fun context hc _ hs => h.traced_importContext hclosed _ (hclosed id context hid hc) hs) hv

theorem Registry.traced_inherited (h : store.Registry) (hm : library ∈ store.libraries)
    (hu : store.unitIn? library.id id = some unit) (location : Location) :
    Site.Traced ⟨store, library, location⟩ (store.Reads id)
      { visibility := Site.inherited ⟨store, library, location⟩
          (attemptUnit? (Site.owner? ⟨store, library, location⟩ unit)) } := by
  have hsite : Site.Registered ⟨store, library, location⟩ := ⟨h, hm⟩
  have hi : Site.Traced ⟨store, library, location⟩ (store.Reads id)
      { visibility := .implicit store library } := h.traced_implicit hm location []
  unfold Site.inherited
  dsimp only
  split
  · next primary hp =>
    obtain ⟨owner, ho, hp⟩ := Option.bind_eq_some_iff.mp hp
    obtain ⟨ident, hident, hr⟩ := Option.map_eq_some_iff.mp (attemptUnit?_eq_some_iff.mp ho)
    have hd := (hsite.resolveOwner_iff rfl).mp hr
    have ⟨found, hf, _⟩ := hd
    obtain rfl := Option.some.inj ((unit?_of_unitIn? hf).symm.trans hp)
    exact h.traced_linkClauses hm (fun _ _ => .context) hf
      (.primary ⟨library, hm, unit, hu, ident, hident, hd⟩) hi
  · exact hi

theorem Registry.traced_linkUnit (h : store.Registry) (hm : library ∈ store.libraries)
    (hu : store.unitIn? library.id id = some unit) :
    (store.linkUnit library id unit).visibility.Sound store library ∧
      (store.linkUnit library id unit).visibility.Justified store library (store.Reads id) :=
  h.traced_linkClauses hm (fun _ _ => .context) hu .self (h.traced_inherited hm hu _)

end Store

/-- In a unit the name `work` stands for the library of the unit, and any other name that is visible
stands for the one library that bears it. -/
theorem Design.Reachable.library_names_exact {design : Design} (h : design.Reachable) :
    ∀ library ∈ design.store.libraries, ∀ id unit,
      design.store.unitIn? library.id id = some unit →
        (design.store.visibilityOf id).library? "work" = some library.id ∧
          ∀ name other, name ≠ "work" →
            (design.store.visibilityOf id).library? name = some other →
              ∃ named ∈ design.store.libraries, named.id = other ∧
                ∀ l ∈ design.store.libraries, l.ident.normalized = name ↔ l = named := by
  intro library hm id unit hu
  have hr := h.grounded.built.registry
  have hs := (hr.traced_linkUnit hm hu).1
  rw [hr.visibilityOf_eq hm hu]
  refine ⟨?_, fun name other hne hv => ?_⟩
  · obtain ⟨own, ho⟩ := Option.isSome_iff_exists.mp hs.work
    have hd := hs.denotes ho
    rw [Store.Denotes, if_pos rfl] at hd
    rw [ho, hd]
  · have hd := hs.denotes hv
    rw [Store.Denotes, if_neg hne] at hd
    obtain ⟨named, hn, hid, rfl⟩ := hd
    exact ⟨named, hn, hid, fun l hl => ⟨hr.library_eq_of_name hl hn, fun he => he ▸ rfl⟩⟩

/-- Two contexts in different libraries that refer to each other, and units that read both. The
first context names its own library `work`. -/
def Design.tideUnits : List DesignUnit :=
  let here : Identifier := ⟨"wORK", by decide +kernel⟩
  let east : Identifier := ⟨"east", by decide +kernel⟩
  let west : Identifier := ⟨"west", by decide +kernel⟩
  let tide : Identifier := ⟨"tide", by decide +kernel⟩
  let ebb : Identifier := ⟨"ebb", by decide +kernel⟩
  let surge : Identifier := ⟨"surge", by decide +kernel⟩
  let harbor : Identifier := ⟨"harbor", by decide +kernel⟩
  let selected (first second : Identifier) : Linked Name :=
    { item := .selected (.simple first) second }
  [{ ident := tide, body := .package none [] },
    { ident := ebb
      context := [.library [{ item := here }, { item := east }], .context [selected east surge],
        .use [selected here tide]]
      body := .context },
    { ident := surge
      context := [.library [{ item := west }], .context [selected west ebb]]
      body := .context },
    { ident := harbor
      context := [.context [selected here surge]]
      body := .entity none none [] [] },
    { ident := ⟨"quay", by decide +kernel⟩
      body := .architecture { item := harbor } [.useClause [{ item := .simple tide }]] [] }]

def Design.tides : Design :=
  let design := ((withConfig {}).createLibrary "west").design
  let design := (design.createLibrary "east").design
  let design := (design.addDocument { units := tideUnits.take 2 } ⟨0⟩).design
  (design.addDocument { units := tideUnits.drop 2 } ⟨1⟩).design

theorem Design.reachable_tides : tides.Reachable :=
  .addDocument _ _ (.addDocument _ _ (.createLibrary _ (.createLibrary _ (.start _))))

theorem Design.tides_library_names : tides.Reachable ∧
    ((tides.store.units .all).map fun registered =>
      (registered.library.id.index, (tides.store.visibilityOf registered.id).library? "work",
        (tides.store.visibilityOf registered.id).library? "west")) =
      [(0, some ⟨0⟩, some ⟨0⟩), (0, some ⟨0⟩, some ⟨0⟩), (1, some ⟨1⟩, some ⟨0⟩),
        (1, some ⟨1⟩, some ⟨0⟩), (1, some ⟨1⟩, some ⟨0⟩)] ∧
    ∀ library ∈ tides.store.libraries, ∀ id unit, tides.store.unitIn? library.id id = some unit →
      (tides.store.visibilityOf id).library? "work" = some library.id ∧
        ∀ name other, name ≠ "work" → (tides.store.visibilityOf id).library? name = some other →
          ∃ named ∈ tides.store.libraries, named.id = other ∧
            ∀ l ∈ tides.store.libraries, l.ident.normalized = name ↔ l = named :=
  ⟨reachable_tides, by decide +kernel, reachable_tides.library_names_exact⟩

/-- Linking ends, and what it makes visible is justified. Imports need no bound on the depth. A
library that a unit sees is its own, or `std`, or named by a library clause of a unit that it reads.
A package that it sees is named together with its library by a use clause of a unit that it
reads. -/
theorem Design.Reachable.visibility_justified {design : Design} (h : design.Reachable) :
    (∀ id ∈ design.store.unitIds, ∀ s t, design.store.Imports id s t ↔
        design.store.importContext design.store.unitIds.length id s = t) ∧
      ∀ library ∈ design.store.libraries, ∀ id unit,
        design.store.unitIn? library.id id = some unit →
          (∀ other ∈ (design.store.visibilityOf id).libraryIds, other ≠ library.id →
            design.store.libraryNamed? "std" ≠ some other →
              ∃ source, design.store.Reads id source ∧ design.store.NamesLibrary source other) ∧
          ∀ entry ∈ (design.store.visibilityOf id).packages,
            ∃ source, design.store.Reads id source ∧ design.store.UsesPackage source entry.2 := by
  refine ⟨fun _ hid _ _ => Store.imports_iff hid, fun library hm id unit hu => ?_⟩
  have hr := h.grounded.built.registry
  have hj := (hr.traced_linkUnit hm hu).2
  rw [hr.visibilityOf_eq hm hu]
  refine ⟨fun other ho hown hstd => ?_, hj.packages⟩
  obtain ⟨entry, he, rfl⟩ := List.mem_map.mp (List.mem_eraseDups.mp ho)
  cases hx : entry.explicit with
  | true => exact hj.explicit entry he hx
  | false => exact ((hj.implicit entry he hx).elim hown hstd).elim

theorem Design.tides_justified : tides.Reachable ∧
    (tides.store.linkUnits.map fun linked =>
      (linked.id, linked.contexts, linked.visibility.packages.map Prod.snd)) =
      [(⟨⟨0⟩, 1⟩, [⟨⟨1⟩, 0⟩], [⟨⟨0⟩, 0⟩]), (⟨⟨0⟩, 0⟩, [], []),
        (⟨⟨1⟩, 0⟩, [⟨⟨0⟩, 1⟩], [⟨⟨0⟩, 0⟩]), (⟨⟨1⟩, 1⟩, [⟨⟨1⟩, 0⟩], [⟨⟨0⟩, 0⟩]),
        (⟨⟨1⟩, 2⟩, [], [⟨⟨0⟩, 0⟩])] ∧
    (∀ id ∈ tides.store.unitIds, ∀ s t, tides.store.Imports id s t ↔
        tides.store.importContext tides.store.unitIds.length id s = t) ∧
    ∀ library ∈ tides.store.libraries, ∀ id unit, tides.store.unitIn? library.id id = some unit →
      (∀ other ∈ (tides.store.visibilityOf id).libraryIds, other ≠ library.id →
        tides.store.libraryNamed? "std" ≠ some other →
          ∃ source, tides.store.Reads id source ∧ tides.store.NamesLibrary source other) ∧
      ∀ entry ∈ (tides.store.visibilityOf id).packages,
        ∃ source, tides.store.Reads id source ∧ tides.store.UsesPackage source entry.2 :=
  ⟨reachable_tides, by decide +kernel, reachable_tides.visibility_justified⟩

end Vhdl
