import Vhdl.Proofs.Loading

/-! # Predefined packages

A package of `std` or `ieee` uses only packages that come before it in the table. In every store in
which the two libraries have their packages, the names in these packages are linked to what they
stand for there, whatever else the store has.
-/

namespace Vhdl

namespace Predefined

def libraries : List (Identifier × List PredefinedPackage) :=
  [(std, stdPackages), (ieee, ieeePackages)]

/-- The packages of all predefined libraries in the order in which they are loaded. -/
def table : List (Identifier × PredefinedPackage) :=
  libraries.flatMap fun entry => entry.2.map (entry.1, ·)

theorem std_mem : (std, stdPackages) ∈ libraries :=
  List.mem_cons_self

theorem ieee_mem : (ieee, ieeePackages) ∈ libraries :=
  List.mem_cons_of_mem _ List.mem_cons_self

theorem normalized_ne_work : ∀ entry ∈ libraries, entry.1.normalized ≠ "work" := by
  decide +kernel

theorem nodup_keys : ∀ entry ∈ libraries,
    ((entry.2.flatMap (·.document.units)).map DesignUnit.key).Nodup := by
  decide +kernel

theorem exists_mem_units : ∀ entry ∈ libraries, ∃ unit, unit ∈ entry.2.flatMap (·.document.units) :=
  fun entry hm => List.exists_mem_of_ne_nil _ (by revert entry; decide +kernel)

/-- A package uses packages that stand before it. -/
theorem uses_before : ∀ place < table.length, ∀ entry ∈ table[place]?, ∀ use ∈ entry.2.uses,
    ∃ earlier < place, ∃ used ∈ table[earlier]?,
      use.library.normalized = used.1.normalized ∧
        use.package.normalized = used.2.ident.normalized := by
  decide +kernel

theorem uses_visible : ∀ entry ∈ table, ∀ use ∈ entry.2.uses,
    use.library.normalized = std.normalized ∨ use.library.normalized = entry.1.normalized := by
  decide +kernel

theorem clauses_predefined : ∀ entry ∈ table, ∀ ident ∈ entry.2.libraries,
    ∃ used ∈ libraries, ident.normalized = used.1.normalized := by
  decide +kernel

theorem mem_table_iff {entry : Identifier × PredefinedPackage} :
    entry ∈ table ↔ ∃ packages, (entry.1, packages) ∈ libraries ∧ entry.2 ∈ packages := by
  obtain ⟨ident, package⟩ := entry
  simp only [table, List.mem_flatMap, List.mem_map, Prod.mk.injEq, Prod.exists]
  constructor
  · rintro ⟨_, packages, hm, _, hp, rfl, rfl⟩
    exact ⟨packages, hm, hp⟩
  · rintro ⟨packages, hm, hp⟩
    exact ⟨ident, packages, hm, package, hp, rfl, rfl⟩

end Predefined

section Linking

namespace Store

variable {store : Store} {own : Library} {name : String} {a b : LibraryId} {id : UnitId}

theorem Registry.denotes_unique (h : store.Registry) (ha : store.Denotes own name a)
    (hb : store.Denotes own name b) : a = b := by
  unfold Denotes at ha hb
  split at ha
  · next hw =>
    rw [if_pos hw] at hb
    rw [ha, hb]
  · next hw =>
    rw [if_neg hw] at hb
    obtain ⟨x, hx, rfl, hn⟩ := ha
    obtain ⟨y, hy, rfl, hn'⟩ := hb
    rw [h.library_eq_of_name hx hy (hn.trans hn'.symm)]

theorem Registry.exists_library?_of_declares (h : store.Registry) {kind : UnitKind}
    (hd : store.Declares a kind name id) : ∃ library, store.library? a = some library := by
  obtain ⟨unit, hu, _⟩ := hd
  exact h.exists_holder hu

end Store

namespace Visibility

variable {store : Store} {own : Library}

theorem isSome_library?_implicit_own (store : Store) (own : Library) :
    ((implicit store own).library? own.ident.normalized).isSome := by
  have hown : ((({} : Visibility).addLibrary ⟨own.ident.normalized, own.id, false⟩).library?
      own.ident.normalized).isSome := (isSome_library?_addLibrary ..).mpr (.inr rfl)
  have hwork := (within_addLibrary _ ⟨"work", own.id, false⟩).libraries _ hown
  unfold implicit
  split
  · exact (within_addLibrary ..).libraries _ hwork
  · exact hwork

theorem isSome_library?_implicit_std {library : LibraryId}
    (h : store.libraryNamed? "std" = some library) :
    ((implicit store own).library? "std").isSome := by
  unfold implicit
  rw [h]
  exact (isSome_library?_addLibrary ..).mpr (.inr rfl)

end Visibility

namespace Site

variable {site : Site} {v w : Visibility} {first ident : Identifier} {owner : LibraryId}
  {id : UnitId}

theorem Registered.resolvePrimary_eq (h : site.Registered) (hv : v.Sound site.store site.library)
    (hs : (v.library? first.normalized).isSome)
    (hd : site.store.Denotes site.library first.normalized owner) {kind : UnitKind}
    (hk : kind.isPrimary = true) (hp : site.store.Declares owner kind ident.normalized id) :
    site.resolvePrimary v kind first ident = .ok id := by
  obtain ⟨found, hf⟩ := Option.isSome_iff_exists.mp hs
  obtain rfl := h.registry.denotes_unique (hv.denotes hf) hd
  obtain ⟨library, hl⟩ := h.registry.exists_library?_of_declares hp
  obtain ⟨unit, hu, hkind, hn⟩ := hp
  have hget : library.get? (.primary ident.normalized) = some id := by
    refine ((h.registry.holds found library hl).get?_iff _ _).mpr ⟨unit, hu, ?_⟩
    exact DesignUnit.key_eq_primary_iff.mpr ⟨hkind ▸ hk, hn⟩
  have hof : site.store.kindOf? id = some kind := by
    rw [Store.kindOf?_eq_of_unitIn? hu, hkind]
  simp only [resolvePrimary, hf, Option.bind_some, hl, hget, hof, if_true]

theorem Registered.resolveUse_eq (h : site.Registered) (hv : v.Sound site.store site.library)
    (hs : (v.library? first.normalized).isSome)
    (hd : site.store.Denotes site.library first.normalized owner)
    (hp : site.store.Declares owner .package ident.normalized id) {name : Name}
    {rest : List Identifier} {all : Bool}
    (hn : name.segments? = some (first :: ident :: rest, all)) :
    site.resolveUse v name = .ok (.unit id) := by
  have hr := h.resolvePrimary_eq hv hs hd rfl hp
  obtain ⟨found, hf⟩ := Option.isSome_iff_exists.mp hs
  simp only [resolveUse, hn, hf, hr]
  rfl

/-- Names of use clauses that start with a library that is visible here are linked to the packages
that they name there. -/
def exactUses (site : Site) (v : Visibility) : NameRel where
  library name _ := site.store.LibraryLink site.library name
  use name _ := ∀ first ident rest all owner id,
    name.item.segments? = some (first :: ident :: rest, all) →
    (v.library? first.normalized).isSome →
    site.store.Denotes site.library first.normalized owner →
    site.store.Declares owner .package ident.normalized id → name.target = some (.unit id)
  context _ _ := True

/-- What the clauses add hides nothing that was visible before them. -/
theorem Registered.exactUses_linkClauses (h : site.Registered)
    {f : UnitId → ClauseState → ClauseState}
    (hf : ∀ id s, Visibility.Sound site.store site.library s.visibility →
      (f id s).visibility.Sound site.store site.library)
    (hg : ∀ id (s : ClauseState), s.Grows (f id s)) (hv : v.Sound site.store site.library)
    (unit : DesignUnit) (primary : Option Target) :
    ((site.linkClauses f { visibility := v } unit).1.withPrimary primary).Rel (site.exactUses v)
      (fun _ _ => True) ((site.linkClauses f { visibility := v } unit).1.withPrimary primary) := by
  refine (linkClauses_rel₂ (Q := fun s _ => s.visibility.Sound site.store site.library ∧
    v.Within s.visibility) (fun s _ name _ hs _ => ?_) (fun s _ name _ hs _ => ?_)
    (fun s _ name _ hs _ => ?_) trivial (.refl unit) ⟨hv, .refl v⟩).1
  · obtain ⟨hl, hsound⟩ := h.linkLibrary name hs.1
    exact ⟨hl, hsound, hs.2.trans (site.grows_linkLibrary s name).visibility⟩
  · refine ⟨?_, (h.linkUse name hs.1).2, hs.2.trans (site.grows_linkUse s name).visibility⟩
    intro first ident rest all owner id hn hfirst hd hp
    have hitem : (site.linkUse s name).1.item = name.item := by
      unfold Site.linkUse
      split <;> rfl
    rw [hitem] at hn
    have hr := h.resolveUse_eq hs.1 (hs.2.libraries _ hfirst) hd hp hn
    simp only [Site.linkUse, hr]
    rfl
  · exact ⟨trivial, (h.linkContext hf name hs.1).2,
      hs.2.trans (grows_linkContext hg name).visibility⟩

end Site

end Linking

namespace PredefinedPackage

variable {package : PredefinedPackage} {unit : DesignUnit}

def declaration (package : PredefinedPackage) : DesignUnit where
  ident := package.ident
  context := package.context
  body := .package none []
  doc := some package.doc

def implementation (package : PredefinedPackage) : DesignUnit where
  ident := package.ident
  body := .packageBody none []

theorem declaration_mem (package : PredefinedPackage) :
    package.declaration ∈ package.document.units :=
  List.mem_cons_self

theorem eq_of_mem_units (h : unit ∈ package.document.units) :
    unit = package.declaration ∨ unit = package.implementation := by
  rcases List.mem_cons.mp h with h | h
  · exact .inl h
  · split at h
    · exact .inr (List.mem_singleton.mp h)
    · cases h

theorem libraryNames_declaration (package : PredefinedPackage) :
    package.declaration.libraryNames = package.libraries.map ({ item := · }) := by
  have huses : (package.uses.map fun use => ContextItem.use [{ item := use.name }]).flatMap
      ContextItem.libraryNames = [] := by
    simp [List.flatMap_map, ContextItem.libraryNames]
  change package.context.flatMap _ = _
  rw [context, List.flatMap_append, huses, List.append_nil]
  split
  · next he => simp [List.isEmpty_iff.mp he]
  · simp [ContextItem.libraryNames]

theorem useNames_declaration (package : PredefinedPackage) :
    package.declaration.useNames = package.uses.map ({ item := ·.name }) := by
  have hclause : (if package.libraries.isEmpty then []
      else [ContextItem.library (package.libraries.map ({ item := · }))]).flatMap
      ContextItem.useNames = [] := by
    split <;> rfl
  change package.context.flatMap _ ++ [] = _
  rw [context, List.flatMap_append, hclause, List.nil_append, List.append_nil, List.flatMap_map,
    List.map_eq_flatMap]
  rfl

theorem contextNames_declaration (package : PredefinedPackage) :
    package.declaration.contextNames = [] := by
  refine List.flatMap_eq_nil_iff.mpr fun item hi => ?_
  rcases List.mem_append.mp hi with hi | hi
  · split at hi
    · cases hi
    · rw [List.mem_singleton.mp hi]
      rfl
  · obtain ⟨use, _, rfl⟩ := List.mem_map.mp hi
    rfl

end PredefinedPackage

theorem PredefinedUse.segments?_name (use : PredefinedUse) :
    use.name.segments? = some ([use.library, use.package], use.all) := by
  unfold name
  cases use.all <;> rfl

namespace Store

/-- The predefined libraries have the units of their packages and no others. -/
structure Equipped (store : Store) : Prop where
  registry : store.Registry
  carries : ∀ entry ∈ Predefined.libraries, ∃ library, store.Named entry.1 library ∧
    store.Carries library (entry.2.flatMap (·.document.units))

def PackageAt (store : Store) (place : Nat) (id : UnitId) : Prop :=
  ∃ entry ∈ Predefined.table[place]?, ∃ library, store.Named entry.1 library ∧
    store.unitIn? library id = some entry.2.declaration

variable {store : Store} {entry : Identifier × PredefinedPackage} {library : Library}
  {place : Nat} {id : UnitId} {unit : DesignUnit} {use : PredefinedUse}

theorem Named.unique {a b : LibraryId} {i j : Identifier} (ha : store.Named i a)
    (h : store.Registry) (hb : store.Named j b) (he : i.normalized = j.normalized) : a = b := by
  have hx := h.findLibrary?_iff_named.mpr ha
  have hy := h.findLibrary?_iff_named.mpr hb
  rw [findLibrary?, he] at hx
  exact Option.some.inj (hx.symm.trans hy)

namespace Equipped

theorem exists_unit (hq : store.Equipped) (he : entry ∈ Predefined.table)
    (hu : unit ∈ entry.2.document.units) :
    ∃ library id, store.Named entry.1 library ∧ store.unitIn? library id = some unit := by
  obtain ⟨packages, hm, hp⟩ := Predefined.mem_table_iff.mp he
  obtain ⟨library, hn, hc⟩ := hq.carries _ hm
  obtain ⟨id, hin⟩ := (hc unit).mpr (List.mem_flatMap.mpr ⟨entry.2, hp, hu⟩)
  exact ⟨library, id, hn, hin⟩

theorem exists_entry (hq : store.Equipped) {ident : Identifier} {packages : List PredefinedPackage}
    (hm : (ident, packages) ∈ Predefined.libraries) {library : LibraryId}
    (hn : store.Named ident library) (hu : store.unitIn? library id = some unit) :
    ∃ package, (ident, package) ∈ Predefined.table ∧ unit ∈ package.document.units := by
  obtain ⟨found, hf, hc⟩ := hq.carries _ hm
  obtain rfl := hn.unique hq.registry hf rfl
  obtain ⟨package, hp, hunit⟩ := List.mem_flatMap.mp ((hc unit).mp ⟨id, hu⟩)
  exact ⟨package, Predefined.mem_table_iff.mpr ⟨packages, hm, hp⟩, hunit⟩

theorem exists_used (hq : store.Equipped) (own : Library)
    (he : entry ∈ Predefined.table[place]?) (hu : use ∈ entry.2.uses) :
    ∃ earlier < place, ∃ owner id, store.PackageAt earlier id ∧
      store.Denotes own use.library.normalized owner ∧
      store.Declares owner .package use.package.normalized id := by
  have hlt : place < Predefined.table.length := (List.getElem?_eq_some_iff.mp he).1
  obtain ⟨earlier, hlt, used, hx, hl, hp⟩ := Predefined.uses_before place hlt entry he use hu
  have hmem := List.mem_of_getElem? hx
  obtain ⟨owner, id, hn, hin⟩ := hq.exists_unit hmem used.2.declaration_mem
  refine ⟨earlier, hlt, owner, id, ⟨used, hx, owner, hn, hin⟩, ?_, _, hin, rfl, hp.symm⟩
  obtain ⟨packages, hm, _⟩ := Predefined.mem_table_iff.mp hmem
  rw [hl, Denotes, if_neg (Predefined.normalized_ne_work _ hm)]
  obtain ⟨library, hl, hn⟩ := hn
  obtain ⟨hm, hi⟩ := hq.registry.library?_iff.mp hl
  exact ⟨library, hm, hi, hn⟩

theorem isSome_library? (hq : store.Equipped) (he : entry ∈ Predefined.table)
    (hn : library.ident.normalized = entry.1.normalized) (hu : use ∈ entry.2.uses) :
    ((Visibility.implicit store library).library? use.library.normalized).isSome := by
  rcases Predefined.uses_visible entry he use hu with hl | hl
  · obtain ⟨owner, hs, _⟩ := hq.carries _ Predefined.std_mem
    have hnamed : store.libraryNamed? "std" = some owner :=
      (store.libraryNamed?_text Predefined.std).trans (hq.registry.findLibrary?_iff_named.mpr hs)
    have hstd : Predefined.std.normalized = "std" := by decide +kernel
    rw [hl, hstd]
    exact Visibility.isSome_library?_implicit_std hnamed
  · rw [hl, ← hn]
    exact Visibility.isSome_library?_implicit_own store library

theorem diagnostics_linkClauses (hq : store.Equipped) (he : entry ∈ Predefined.table[place]?)
    (hl : library ∈ store.libraries) (hn : library.ident.normalized = entry.1.normalized)
    (location : Location) :
    (store.linkClauses ⟨store, library, location⟩ (.implicit store library)
      entry.2.declaration).2.diagnostics = [] := by
  have hsite : Site.Registered ⟨store, library, location⟩ := ⟨hq.registry, hl⟩
  have hmem := List.mem_of_getElem? he
  let v := Visibility.implicit store library
  refine (Site.linkClauses_inv (P := fun s => v.Within s.visibility ∧
    s.visibility.Sound store library ∧ s.diagnostics = []) ?_ ?_ ?_
    ⟨.refl v, Visibility.sound_implicit hq.registry hl, rfl⟩).2.2
  · rintro s name hm ⟨hw, hs, hd⟩
    refine ⟨hw.trans (Site.grows_linkLibrary _ s name).visibility,
      (hsite.linkLibrary name hs).2, ?_⟩
    rw [PredefinedPackage.libraryNames_declaration] at hm
    obtain ⟨ident, hi, rfl⟩ := List.mem_map.mp hm
    obtain ⟨used, hx, hname⟩ := Predefined.clauses_predefined entry hmem ident hi
    obtain ⟨owner, hnamed, _⟩ := hq.carries used hx
    have hf : store.findLibrary? ident = some owner := by
      rw [findLibrary?, hname]
      exact hq.registry.findLibrary?_iff_named.mpr hnamed
    have hwork : ¬ ident.normalized = "work" := hname ▸ Predefined.normalized_ne_work used hx
    simp only [Site.linkLibrary, Site.resolveLibrary, hwork, if_false, hf, hd]
  · rintro s name hm ⟨hw, hs, hd⟩
    refine ⟨hw.trans (Site.grows_linkUse _ s name).visibility, (hsite.linkUse name hs).2, ?_⟩
    rw [PredefinedPackage.useNames_declaration] at hm
    obtain ⟨use, hu, rfl⟩ := List.mem_map.mp hm
    obtain ⟨_, _, owner, found, _, hdenotes, hdeclares⟩ := hq.exists_used library he hu
    have hvisible := hw.libraries _ (hq.isSome_library? hmem hn hu)
    have hr := hsite.resolveUse_eq hs hvisible hdenotes hdeclares use.segments?_name
    simp only [Site.linkUse, hr, hd]
  · intro s name hm
    rw [PredefinedPackage.contextNames_declaration] at hm
    cases hm

theorem resolveOwner_eq (hq : store.Equipped) (he : entry ∈ Predefined.table[place]?)
    (hl : library ∈ store.libraries) (hn : library.ident.normalized = entry.1.normalized)
    (location : Location) : ∃ found, store.PackageAt place found ∧
      Site.resolveOwner ⟨store, library, location⟩ .packageBody entry.2.ident = .ok found := by
  have hsite : Site.Registered ⟨store, library, location⟩ := ⟨hq.registry, hl⟩
  have hown : store.Named entry.1 library.id :=
    ⟨library, hq.registry.library?_iff.mpr ⟨hl, rfl⟩, hn⟩
  obtain ⟨owner, found, hnamed, hin⟩ :=
    hq.exists_unit (List.mem_of_getElem? he) entry.2.declaration_mem
  obtain rfl := hnamed.unique hq.registry hown rfl
  exact ⟨found, ⟨entry, he, _, hown, hin⟩, (hsite.resolveOwner_iff rfl).mpr ⟨_, hin, rfl, rfl⟩⟩

theorem diagnostics_linkUnit (hq : store.Equipped) (he : entry ∈ Predefined.table[place]?)
    (hl : library ∈ store.libraries) (hn : library.ident.normalized = entry.1.normalized)
    (hu : unit ∈ entry.2.document.units) (id : UnitId) :
    (store.linkUnit library id unit).diagnostics = [] := by
  rcases PredefinedPackage.eq_of_mem_units hu with rfl | rfl
  · have hc := hq.diagnostics_linkClauses he hl hn (store.locationOf id)
    change [] ++ [] ++ (store.linkClauses ⟨store, library, store.locationOf id⟩
      (.implicit store library) entry.2.declaration).2.diagnostics ++ [] = []
    rw [hc]
    rfl
  · obtain ⟨found, _, ho⟩ := hq.resolveOwner_eq he hl hn (store.locationOf id)
    change [] ++ attemptDiagnostics (some (Site.resolveOwner ⟨store, library, store.locationOf id⟩
      .packageBody entry.2.ident)) ++ [] ++ [] = []
    rw [ho]
    rfl

/-- What the clauses of a predefined package are linked to: libraries, and packages that come before
it. -/
theorem target_of_declaration (hq : store.Equipped) (he : entry ∈ Predefined.table[place]?)
    (hl : library ∈ store.libraries) (hn : library.ident.normalized = entry.1.normalized)
    {kind : EdgeKind} {target : Target}
    (hs : (kind, some target) ∈ (store.linkUnit library id entry.2.declaration).unit.slots) :
    (∃ owner, target = .library owner) ∨
      ∃ earlier < place, ∃ found, store.PackageAt earlier found ∧ target = .unit found := by
  let site : Site := ⟨store, library, store.locationOf id⟩
  let linked := (store.linkUnit library id entry.2.declaration).unit
  have hsite : site.Registered := ⟨hq.registry, hl⟩
  have hexact : linked.Rel (site.exactUses (.implicit store library)) (fun _ _ => True) linked :=
    hsite.exactUses_linkClauses (fun id _ hs => hq.registry.sound_importContext _ id hs)
      (store.grows_importContext _) (Visibility.sound_implicit hq.registry hl) _ none
  have hsame : linked.SameItems entry.2.declaration :=
    DesignUnit.sameItems_of_clearTargets (site.clearTargets_linkClauses _ _ _ none)
  simp only [DesignUnit.slots, List.mem_append, List.mem_map, Prod.mk.injEq] at hs
  rcases hs with ((⟨name, hm, _, ht⟩ | ⟨name, hm, _, ht⟩) | ⟨name, hm, _, ht⟩) | hp
  · obtain ⟨owner, rfl, _⟩ := forall_of_forall₂ hexact.libraryNames name hm target ht
    exact .inl ⟨owner, rfl⟩
  · obtain ⟨written, hw, hitem⟩ := exists_mem_of_forall₂ hsame.useNames hm
    rw [PredefinedPackage.useNames_declaration] at hw
    obtain ⟨use, hu, rfl⟩ := List.mem_map.mp hw
    obtain ⟨earlier, hlt, owner, found, hfound, hdenotes, hdeclares⟩ := hq.exists_used library he hu
    have hsegments := (congrArg Name.segments? hitem).trans use.segments?_name
    have hlinked := forall_of_forall₂ hexact.useNames name hm _ _ _ _ _ _ hsegments
      (hq.isSome_library? (List.mem_of_getElem? he) hn hu) hdenotes hdeclares
    exact .inr ⟨earlier, hlt, found, hfound, Option.some.inj (ht.symm.trans hlinked)⟩
  · obtain ⟨written, hw, _⟩ := exists_mem_of_forall₂ hsame.contextNames hm
    rw [PredefinedPackage.contextNames_declaration] at hw
    cases hw
  · cases hp

theorem target_of_implementation (hq : store.Equipped) (he : entry ∈ Predefined.table[place]?)
    (hl : library ∈ store.libraries) (hn : library.ident.normalized = entry.1.normalized)
    {kind : EdgeKind} {target : Target}
    (hs : (kind, some target) ∈ (store.linkUnit library id entry.2.implementation).unit.slots) :
    ∃ found, store.PackageAt place found ∧ target = .unit found := by
  obtain ⟨found, hf, ho⟩ := hq.resolveOwner_eq he hl hn (store.locationOf id)
  have hslot : (kind, some target) ∈ [(EdgeKind.packageImplementation, Option.map Target.unit
    (attemptUnit? (some (Site.resolveOwner ⟨store, library, store.locationOf id⟩ .packageBody
      entry.2.ident)) <|> none))] := hs
  rw [ho, List.mem_singleton] at hslot
  exact ⟨found, hf, Option.some.inj (Prod.mk.inj hslot).2⟩

end Equipped

end Store

end Vhdl
