import Vhdl.Proofs.Library
import Vhdl.Proofs.Linking
import Vhdl.Proofs.Outcomes

/-! # The registry of a store

Every document belongs to a library of the store, and every library holds exactly the units of its
documents. Each change of a store preserves this.
-/

namespace Vhdl.Store

variable {store next : Store} {id : UnitId}
  {P : Library → (UnitId → Option DesignUnit) → Prop}

/-- The unit of that handle, if its document belongs to the library. -/
def unitIn? (store : Store) (library : LibraryId) (id : UnitId) : Option DesignUnit :=
  (store.document? id.document).bind fun document =>
    if document.library = some library then document.units[id.index]? else none

theorem unitIn?_eq_some_iff {library : LibraryId} {unit : DesignUnit} :
    store.unitIn? library id = some unit ↔ ∃ document, store.document? id.document = some document ∧
      document.library = some library ∧ document.units[id.index]? = some unit := by
  simp only [unitIn?, Option.bind_eq_some_iff]
  refine exists_congr fun document => and_congr_right fun _ => ?_
  split <;> simp_all

theorem unitIn?_of_document? {document : Document} (h : store.document? id.document = some document)
    (library : LibraryId) : store.unitIn? library id =
      if document.library = some library then document.units[id.index]? else none := by
  rw [unitIn?, h, Option.bind_some]

theorem unitIn?_of_document?_eq_none (h : store.document? id.document = none)
    (library : LibraryId) : store.unitIn? library id = none := by
  rw [unitIn?, h, Option.bind_none]

theorem unitIn?_unique {a b : LibraryId} {unit unit' : DesignUnit}
    (ha : store.unitIn? a id = some unit) (hb : store.unitIn? b id = some unit') :
    a = b ∧ unit = unit' := by
  obtain ⟨document, hd, hl, hu⟩ := unitIn?_eq_some_iff.mp ha
  obtain ⟨document', hd', hl', hu'⟩ := unitIn?_eq_some_iff.mp hb
  cases hd.symm.trans hd'
  cases hl.symm.trans hl'
  cases hu.symm.trans hu'
  exact ⟨rfl, rfl⟩

/-- Libraries have their places as handles and the table of names finds them, documents have a
library and distinct paths, and the libraries hold the units of their documents. -/
structure Registry (store : Store) : Prop where
  ids : ∀ id library, store.library? id = some library → library.id = id
  names : ∀ name id, store.libraryNames.get? name = some id ↔
    ∃ library, store.library? id = some library ∧ library.ident.normalized = name
  owned : ∀ document ∈ store.documents,
    ∃ id library, document.library = some id ∧ store.library? id = some library
  paths : store.documents.Pairwise fun a b => ∀ p ∈ a.path, ∀ q ∈ b.path, p.same q = false
  holds : ∀ id library, store.library? id = some library → library.Holds (store.unitIn? id)

def Each (store : Store) (P : Library → (UnitId → Option DesignUnit) → Prop) : Prop :=
  ∀ id library, store.library? id = some library → P library (store.unitIn? id)

namespace Registry

theorem empty (config : Config) : Registry { config } where
  ids := by simp [library?]
  names := by simp [library?]
  owned := by simp
  paths := .nil
  holds := by simp [library?]

theorem setConfig (h : store.Registry) (config : Config) : Registry { store with config } :=
  ⟨h.ids, h.names, h.owned, h.paths, h.holds⟩

theorem exists_owner (h : store.Registry) {document : Document} {index : DocumentId}
    {owner : LibraryId} (hd : store.document? index = some document)
    (hw : document.library = some owner) : ∃ library, store.library? owner = some library := by
  obtain ⟨_, library, hw', hl⟩ := h.owned document (List.mem_of_getElem? hd)
  cases hw.symm.trans hw'
  exact ⟨library, hl⟩

theorem exists_holder (h : store.Registry) {owner : LibraryId} {unit : DesignUnit}
    (hu : store.unitIn? owner id = some unit) : ∃ library, store.library? owner = some library := by
  obtain ⟨document, hd, hw, _⟩ := unitIn?_eq_some_iff.mp hu
  exact h.exists_owner hd hw

end Registry

theorem getElem?_concat_iff {α : Type} {xs : List α} {x y : α} {i : Nat} :
    (xs ++ [x])[i]? = some y ↔ xs[i]? = some y ∨ i = xs.length ∧ y = x := by
  rcases Nat.lt_trichotomy i xs.length with h | h | h
  · have hn : i ≠ xs.length := by omega
    simp [List.getElem?_append_left h, hn]
  · subst h
    simp [eq_comm]
  · have hn : i ≠ xs.length := by omega
    have hl : (xs ++ [x]).length ≤ i := by simp; omega
    simp [List.getElem?_eq_none hl, List.getElem?_eq_none (by omega : xs.length ≤ i), hn]

section CreateLibrary

theorem createLibrary_cases {name : String} {id : LibraryId}
    (h : store.createLibrary name = .ok (id, next)) :
    ∃ ident : Identifier, (store.findLibrary? ident).bind store.library? = none ∧
      id = ⟨store.libraries.length⟩ ∧ next = { store with
        libraries := store.libraries ++ [{ id, ident }]
        libraryNames := store.libraryNames.insert ident.normalized id } := by
  unfold createLibrary at h
  split at h
  · cases h
  · next ident _ =>
    split at h
    · cases h
    · split at h
      · cases h
      · next hf =>
        cases h
        exact ⟨ident, hf, rfl, rfl⟩

theorem library?_createLibrary {ident : Identifier} {id : LibraryId} {library : Library} :
    library? { store with
      libraries := store.libraries ++ [{ id := ⟨store.libraries.length⟩, ident }] } id =
        some library ↔ store.library? id = some library ∨
          id = ⟨store.libraries.length⟩ ∧ library = { id := ⟨store.libraries.length⟩, ident } := by
  obtain ⟨index⟩ := id
  simp only [library?, getElem?_concat_iff, LibraryId.mk.injEq]

theorem Registry.unitIn?_createLibrary (h : store.Registry) :
    store.unitIn? ⟨store.libraries.length⟩ = fun _ => none := by
  funext id
  refine Option.eq_none_iff_forall_ne_some.mpr fun unit hu => ?_
  obtain ⟨library, hs⟩ := h.exists_holder hu
  simp [library?] at hs

theorem Registry.each_createLibrary (h : store.Registry) (hlast : Library.Lasting P)
    (he : store.Each P) {name : String} {id : LibraryId}
    (hc : store.createLibrary name = .ok (id, next)) : next.Each P := by
  obtain ⟨ident, _, rfl, rfl⟩ := createLibrary_cases hc
  intro id library hs
  rcases library?_createLibrary.mp hs with hs | ⟨rfl, rfl⟩
  · exact he id library hs
  · have hnew := hlast.new ⟨store.libraries.length⟩ ident
    rw [← h.unitIn?_createLibrary] at hnew
    exact hnew

theorem Registry.createLibrary (h : store.Registry) {name : String} {id : LibraryId}
    (hc : store.createLibrary name = .ok (id, next)) : next.Registry := by
  have hholds := h.each_createLibrary Library.lasting_holds h.holds hc
  obtain ⟨ident, hf, rfl, rfl⟩ := createLibrary_cases hc
  have hnew : ∀ library : Library, library.ident.normalized = ident.normalized →
      ∀ id, store.library? id ≠ some library := by
    intro library hn id hl
    have hg := (h.names ident.normalized id).mpr ⟨library, hl, hn⟩
    simp [findLibrary?, hg, hl] at hf
  refine ⟨fun id library hs => ?_, fun name id => ?_, fun document hd => ?_, h.paths, hholds⟩
  · rcases library?_createLibrary.mp hs with hs | ⟨rfl, rfl⟩
    · exact h.ids id library hs
    · rfl
  · simp only [Table.get?_insert]
    split
    · next hn =>
      subst hn
      constructor
      · intro he
        cases he
        exact ⟨_, library?_createLibrary.mpr (.inr ⟨rfl, rfl⟩), rfl⟩
      · rintro ⟨library, hs, hn⟩
        rcases library?_createLibrary.mp hs with hs | ⟨rfl, _⟩
        · exact (hnew library hn id hs).elim
        · rfl
    · next hn =>
      rw [h.names]
      constructor
      · rintro ⟨library, hs, hn'⟩
        exact ⟨library, library?_createLibrary.mpr (.inl hs), hn'⟩
      · rintro ⟨library, hs, rfl⟩
        rcases library?_createLibrary.mp hs with hs | ⟨_, rfl⟩
        · exact ⟨library, hs, rfl⟩
        · exact (hn rfl).elim
  · obtain ⟨id, library, hi, hs⟩ := h.owned document hd
    exact ⟨id, library, hi, library?_createLibrary.mpr (.inl hs)⟩

end CreateLibrary

def setLibrary (store : Store) (id : LibraryId) (library : Library) : Store :=
  { store with libraries := store.libraries.set id.index library }

def setDocument (store : Store) (id : DocumentId) (document : Document) : Store :=
  { store with documents := store.documents.set id.index document }

theorem updateLibrary_eq {owner : LibraryId} {library : Library}
    (hl : store.library? owner = some library) (update : Library → Library) :
    store.updateLibrary owner update = store.setLibrary owner (update library) := by
  have hg : store.libraries[owner.index]? = some library := hl
  rw [updateLibrary, List.modify_eq_set_getElem?, hg]
  rfl

theorem updateUnits_eq {id : DocumentId} {document : Document}
    (hd : store.document? id = some document) (update : List DesignUnit → List DesignUnit) :
    store.updateUnits id update =
      store.setDocument id { document with units := update document.units } := by
  have hg : store.documents[id.index]? = some document := hd
  rw [updateUnits, List.modify_eq_set_getElem?, hg]
  rfl

theorem library?_setLibrary {library : Library} {owner : LibraryId}
    (hl : store.library? owner = some library) (new : Library) (id : LibraryId) :
    (store.setLibrary owner new).library? id =
      if id = owner then some new else store.library? id := by
  have hlt : owner.index < store.libraries.length := (List.getElem?_eq_some_iff.mp hl).1
  rw [library?, setLibrary, List.getElem?_set]
  by_cases he : id = owner
  · subst he
    simp [hlt]
  · have hne : ¬ owner.index = id.index := fun hx => he (by cases id; cases owner; simp_all)
    simp [he, hne, library?]

/-- Documents and one library may be replaced as long as the library has the property with its new
units and the documents of other libraries keep their units. -/
theorem Each.replace (he : store.Each P) {library new : Library} {owner : LibraryId}
    (hl : store.library? owner = some library) {documents : List Document}
    (hnew : P new (unitIn? { store with documents } owner))
    (hother : ∀ id, id ≠ owner → unitIn? { store with documents } id = store.unitIn? id) :
    Each { store.setLibrary owner new with documents } P := by
  intro id other ho
  have hx := (library?_setLibrary hl new id).symm.trans ho
  split at hx
  · next he =>
    cases hx
    rw [he]
    exact hnew
  · next hne =>
    have hu := he id other hx
    rw [← hother id hne] at hu
    exact hu

theorem Registry.replace (h : store.Registry) {library new : Library} {owner : LibraryId}
    (hl : store.library? owner = some library) (hi : new.id = library.id)
    (hn : new.ident = library.ident) {documents : List Document}
    (howned : ∀ document ∈ documents,
      ∃ id library, document.library = some id ∧ store.library? id = some library)
    (hpaths : documents.Pairwise fun a b => ∀ p ∈ a.path, ∀ q ∈ b.path, p.same q = false)
    (hholds : Each { store.setLibrary owner new with documents } Library.Holds) :
    Registry { store.setLibrary owner new with documents } := by
  have hs := library?_setLibrary hl new
  refine ⟨fun id other ho => ?_, fun name id => ?_, fun document hd => ?_, hpaths,
    hholds⟩
  · have hx := (hs id).symm.trans ho
    split at hx
    · next he =>
      cases hx
      rw [hi, h.ids owner library hl, he]
    · exact h.ids id other hx
  · refine (h.names name id).trans ?_
    change _ ↔ ∃ other, (store.setLibrary owner new).library? id = some other ∧ _
    rw [hs]
    split
    · next he =>
      subst he
      simp [hl, hn]
    · rfl
  · obtain ⟨id, other, hd, ho⟩ := howned document hd
    by_cases he : id = owner
    · exact ⟨id, new, hd, (hs id).trans (if_pos he)⟩
    · exact ⟨id, other, hd, ((hs id).trans (if_neg he)).trans ho⟩

theorem unitIn?_setDocument {document new : Document} {owner : DocumentId}
    (hd : store.document? owner = some document) (library : LibraryId) (id : UnitId) :
    (store.setDocument owner new).unitIn? library id =
      if id.document = owner then
        if new.library = some library then new.units[id.index]? else none
      else store.unitIn? library id := by
  have hlt : owner.index < store.documents.length := (List.getElem?_eq_some_iff.mp hd).1
  have hg : (store.setDocument owner new).document? id.document =
      if id.document = owner then some new else store.document? id.document := by
    rw [document?, setDocument, List.getElem?_set]
    by_cases he : id.document = owner
    · subst he
      simp [hlt]
    · have hne : ¬ owner.index = id.document.index := fun hx => he (by
        cases hi : id.document
        cases owner
        simp_all)
      simp [he, hne, document?]
  rw [unitIn?, hg]
  split <;> rfl

theorem unitIn?_setDocument_of_ne {document new : Document} {id : DocumentId}
    (hd : store.document? id = some document) (ho : new.library = document.library)
    {owner other : LibraryId} (hw : document.library = some owner) (hne : other ≠ owner) :
    (store.setDocument id new).unitIn? other = store.unitIn? other := by
  funext unit
  refine (unitIn?_setDocument hd other unit).trans ?_
  split
  · next he =>
    subst he
    have hx : ¬ owner = other := fun hx => hne hx.symm
    rw [unitIn?_of_document? hd, ho, hw]
    simp [hx]
  · rfl

theorem owner?_eq_some_iff {id : DocumentId} {document : Document} {owner : LibraryId}
    {library : Library} : store.owner? id = some (document, owner, library) ↔
      store.document? id = some document ∧ document.library = some owner ∧
        store.library? owner = some library := by
  simp only [owner?, Option.bind_eq_bind, Option.bind_eq_some_iff, Option.pure_def,
    Option.some.injEq, Prod.mk.injEq]
  aesop

theorem ownedUnit?_eq_some_iff {owner : LibraryId} {unit : DesignUnit} :
    store.ownedUnit? id = some (owner, unit) ↔
      ∃ document, store.document? id.document = some document ∧
        document.library = some owner ∧ document.units[id.index]? = some unit := by
  simp only [ownedUnit?, Option.bind_eq_bind, Option.bind_eq_some_iff, Option.pure_def,
    Option.some.injEq, Prod.mk.injEq]
  aesop

theorem ownedUnit?_iff_unitIn? {owner : LibraryId} {unit : DesignUnit} :
    store.ownedUnit? id = some (owner, unit) ↔ store.unitIn? owner id = some unit :=
  ownedUnit?_eq_some_iff.trans unitIn?_eq_some_iff.symm

theorem registered?_eq_some_iff {registered : RegisteredUnit} :
    store.registered? id = some registered ↔ registered.id = id ∧
      store.document? id.document = some registered.document ∧
      (∃ owner, registered.document.library = some owner ∧
        store.library? owner = some registered.library) ∧
      registered.document.units[id.index]? = some registered.unit := by
  obtain ⟨id', library, document, unit⟩ := registered
  simp only [registered?, Option.bind_eq_bind, Option.bind_eq_some_iff, Option.pure_def,
    Option.some.injEq, RegisteredUnit.mk.injEq]
  aesop

theorem Each.setDocument (he : store.Each P) {document new : Document} {id : DocumentId}
    (hd : store.document? id = some document) (ho : new.library = document.library)
    {owner : LibraryId} (hw : document.library = some owner) {library updated : Library}
    (hl : store.library? owner = some library)
    (hu : P updated ((store.setDocument id new).unitIn? owner)) :
    Each ((store.setLibrary owner updated).setDocument id new) P :=
  he.replace hl hu fun _ hne => unitIn?_setDocument_of_ne hd ho hw hne

theorem Registry.setDocument (h : store.Registry) {document new : Document} {id : DocumentId}
    (hd : store.document? id = some document) (hp : new.path = document.path)
    (ho : new.library = document.library) {owner : LibraryId}
    (hw : document.library = some owner) {library updated : Library}
    (hl : store.library? owner = some library) (hi : updated.id = library.id)
    (hn : updated.ident = library.ident)
    (hholds : Each ((store.setLibrary owner updated).setDocument id new) Library.Holds) :
    Registry ((store.setLibrary owner updated).setDocument id new) := by
  refine h.replace hl hi hn (fun other hm => ?_) ?_ hholds
  · rcases List.mem_or_eq_of_mem_set hm with hm | rfl
    · exact h.owned other hm
    · exact ⟨owner, library, ho.trans hw, hl⟩
  · have hs : (store.documents.set id.index new).map Document.path =
        store.documents.map Document.path := by
      rw [List.map_set, hp]
      refine List.ext_getElem? fun i => ?_
      rw [List.getElem?_set]
      split
      · next he =>
        subst he
        have hlt := (List.getElem?_eq_some_iff.mp hd).1
        have hd' : store.documents[id.index] = document := (List.getElem?_eq_some_iff.mp hd).2
        simp [hlt, hd']
      · rfl
    have hx := h.paths
    rw [← List.pairwise_map (f := Document.path)
      (R := fun a b => ∀ p ∈ a, ∀ q ∈ b, SourcePath.same p q = false)] at hx ⊢
    exact hs ▸ hx

theorem addUnit_cases {document : DocumentId} {unit : DesignUnit}
    (h : store.addUnit document unit = .ok (id, next)) :
    ∃ old owner library, store.document? document = some old ∧ old.library = some owner ∧
      store.library? owner = some library ∧ library.get? unit.key = none ∧
      id = ⟨document, old.units.length⟩ ∧
      next = (store.setLibrary owner (library.insert unit.key unit.kind id)).setDocument document
        { old with units := old.units ++ [unit] } := by
  unfold addUnit at h
  split at h
  · cases h
  · next old owner library ho =>
    obtain ⟨hd, hw, hl⟩ := owner?_eq_some_iff.mp ho
    split at h
    · cases h
    · next key hk =>
      obtain ⟨hv, rfl⟩ := Library.vacantKey_eq_ok_iff.mp hk
      have hd' : (store.setLibrary owner
          (library.insert unit.key unit.kind ⟨document, old.units.length⟩)).document? document =
            some old := hd
      dsimp only at h
      rw [updateLibrary_eq hl, updateUnits_eq hd'] at h
      cases h
      exact ⟨old, owner, library, hd, hw, hl, hv, rfl, rfl⟩

theorem unitIn?_addUnit {document : DocumentId} {old : Document} {owner : LibraryId}
    (hd : store.document? document = some old) (hw : old.library = some owner)
    (unit : DesignUnit) :
    (store.setDocument document { old with units := old.units ++ [unit] }).unitIn? owner =
      Function.update (store.unitIn? owner) ⟨document, old.units.length⟩ (some unit) := by
  funext other
  rw [unitIn?_setDocument hd]
  by_cases he : other = ⟨document, old.units.length⟩
  · subst he
    simp [hw]
  · rw [Function.update_of_ne he]
    split
    · next hd' =>
      subst hd'
      have hne : other.index ≠ old.units.length := fun hx => he (by cases other; simp_all)
      simp only [unitIn?_of_document? hd, hw, if_true]
      refine Option.ext fun x => ?_
      rw [getElem?_concat_iff]
      simp [hne]
    · rfl

theorem unitIn?_length_units {document : DocumentId} {old : Document}
    (hd : store.document? document = some old) (owner : LibraryId) :
    store.unitIn? owner ⟨document, old.units.length⟩ = none := by
  rw [unitIn?_of_document? hd]
  simp

theorem Each.addUnit (hlast : Library.Lasting P) (he : store.Each P) {document : DocumentId}
    {unit : DesignUnit} (ha : store.addUnit document unit = .ok (id, next)) : next.Each P := by
  obtain ⟨old, owner, library, hd, hw, hl, hv, rfl, rfl⟩ := addUnit_cases ha
  refine he.setDocument hd ?_ hw hl ?_
  · rfl
  rw [unitIn?_addUnit hd hw]
  exact hlast.insert (he owner library hl) (unitIn?_length_units hd owner) hv

theorem Registry.addUnit (h : store.Registry) {document : DocumentId} {unit : DesignUnit}
    (ha : store.addUnit document unit = .ok (id, next)) : next.Registry := by
  have hholds := Each.addUnit Library.lasting_holds h.holds ha
  obtain ⟨old, owner, library, hd, hw, hl, hv, rfl, rfl⟩ := addUnit_cases ha
  refine h.setDocument hd ?_ ?_ hw hl ?_ ?_ hholds
  iterate 4 rfl

theorem modifyUnit_cases {modify : DesignUnit → DesignUnit}
    (h : store.modifyUnit id modify = .ok ((), next)) :
    ∃ document owner library unit, store.document? id.document = some document ∧
      document.library = some owner ∧ store.library? owner = some library ∧
      document.units[id.index]? = some unit ∧ (modify unit).kind = unit.kind ∧
      ∃ new, new = { document with units := document.units.set id.index (modify unit) } ∧
        ((modify unit).key = unit.key ∧ next = store.setDocument id.document new ∨
          library.get? (modify unit).key = none ∧
            next = (store.setLibrary owner
              (library.rekey unit.key (modify unit).key id)).setDocument id.document new) := by
  unfold modifyUnit at h
  split at h
  · cases h
  · next owner unit ho =>
    obtain ⟨document, hd, hw, hu⟩ := ownedUnit?_eq_some_iff.mp ho
    dsimp only at h
    split at h
    · cases h
    · next hk =>
      split at h
      · cases h
      · next library hl =>
        refine ⟨document, owner, library, unit, hd, hw, hl, hu, not_not.mp hk, _, rfl, ?_⟩
        rw [setUnit, updateUnits_eq hd] at h
        split at h
        · next he =>
          cases h
          exact .inl ⟨he, rfl⟩
        · split at h
          · cases h
          · next key hv =>
            obtain ⟨hg, rfl⟩ := Library.vacantKey_eq_ok_iff.mp hv
            have hl' : (store.setDocument id.document { document with
                units := document.units.set id.index (modify unit) }).library? owner =
                  some library := hl
            rw [updateLibrary_eq hl'] at h
            cases h
            exact .inr ⟨hg, rfl⟩

theorem setLibrary_self {owner : LibraryId} {library : Library}
    (hl : store.library? owner = some library) : store.setLibrary owner library = store := by
  obtain ⟨hlt, hg⟩ := List.getElem?_eq_some_iff.mp hl
  rw [setLibrary, ← hg, List.set_getElem_self hlt]

theorem unitIn?_modifyUnit {document : Document} {owner : LibraryId} {unit : DesignUnit}
    (hd : store.document? id.document = some document) (hw : document.library = some owner)
    (hu : document.units[id.index]? = some unit) (changed : DesignUnit) :
    (store.setDocument id.document
      { document with units := document.units.set id.index changed }).unitIn? owner =
      Function.update (store.unitIn? owner) id (some changed) := by
  funext other
  rw [unitIn?_setDocument hd]
  by_cases he : other = id
  · subst he
    simp [hw, (List.getElem?_eq_some_iff.mp hu).1]
  · rw [Function.update_of_ne he]
    split
    · next hd' =>
      have hne : ¬ id.index = other.index := fun hx => he (by cases other; cases id; simp_all)
      rw [unitIn?_of_document? (hd'.symm ▸ hd), List.getElem?_set, if_neg hne, hw,
        if_pos rfl]
    · rfl

theorem Each.modifyUnit (hlast : Library.Lasting P) (he : store.Each P)
    {modify : DesignUnit → DesignUnit}
    (hrekey : ∀ {owner library unit}, store.library? owner = some library →
      store.unitIn? owner id = some unit → (modify unit).kind = unit.kind →
      library.get? (modify unit).key = none → P (library.rekey unit.key (modify unit).key id)
        (Function.update (store.unitIn? owner) id (some (modify unit))))
    (hm : store.modifyUnit id modify = .ok ((), next)) : next.Each P := by
  obtain ⟨document, owner, library, unit, hd, hw, hl, hu, hk, new, rfl, hm⟩ := modifyUnit_cases hm
  have hin : store.unitIn? owner id = some unit := unitIn?_eq_some_iff.mpr ⟨document, hd, hw, hu⟩
  rcases hm with ⟨hkey, rfl⟩ | ⟨hv, rfl⟩
  · rw [← setLibrary_self hl]
    refine he.setDocument hd ?_ hw hl ?_
    · rfl
    rw [unitIn?_modifyUnit hd hw hu]
    exact hlast.keep (he owner library hl) hin hk hkey
  · refine he.setDocument hd ?_ hw hl ?_
    · rfl
    rw [unitIn?_modifyUnit hd hw hu]
    exact hrekey hl hin hk hv

theorem Registry.modifyUnit (h : store.Registry) {modify : DesignUnit → DesignUnit}
    (hm : store.modifyUnit id modify = .ok ((), next)) : next.Registry := by
  have hholds := Each.modifyUnit Library.lasting_holds h.holds
    (fun hl hu hk hv => (h.holds _ _ hl).rekey hu hk hv) hm
  obtain ⟨document, owner, library, unit, hd, hw, hl, hu, hk, new, rfl, hm⟩ := modifyUnit_cases hm
  rcases hm with ⟨_, rfl⟩ | ⟨_, rfl⟩
  · rw [← setLibrary_self hl] at hholds ⊢
    refine h.setDocument hd ?_ ?_ hw hl ?_ ?_ hholds
    iterate 4 rfl
  · refine h.setDocument hd ?_ ?_ hw hl ?_ ?_ hholds
    iterate 4 rfl

section AddDocument

theorem vacantKeys_ok {library : Library} {units : List DesignUnit} {taken keys : List UnitKey}
    (h : vacantKeys library taken units = .ok keys) :
    (∀ unit ∈ units, library.get? unit.key = none ∧ unit.key ∉ taken) ∧
      (units.map DesignUnit.key).Nodup := by
  induction units generalizing taken with
  | nil => simp
  | cons unit rest ih =>
    unfold vacantKeys at h
    split at h
    · cases h
    · next key hv =>
      obtain ⟨hg, rfl⟩ := Library.vacantKey_eq_ok_iff.mp hv
      split at h
      · cases h
      · next ht =>
        obtain ⟨hr, hn⟩ := ih h
        refine ⟨fun other ho => ?_, ?_⟩
        · rcases List.mem_cons.mp ho with rfl | ho
          · exact ⟨hg, ht⟩
          · exact ⟨(hr other ho).1, fun hm => (hr other ho).2 (List.mem_append_left _ hm)⟩
        · refine List.nodup_cons.mpr ⟨fun hm => ?_, hn⟩
          obtain ⟨other, ho, he⟩ := List.mem_map.mp hm
          exact (hr other ho).2 (by simp [he])

/-- A property lasts while units are registered one after the other under consecutive handles. -/
theorem insertUnits_induction (hlast : Library.Lasting P)
    {library : Library} {units : UnitId → Option DesignUnit} (h : P library units)
    {document : DocumentId} {added : List DesignUnit} {first : Nat}
    (hf : ∀ index, first ≤ index → units ⟨document, index⟩ = none)
    (hv : ∀ unit ∈ added, library.get? unit.key = none) (hn : (added.map DesignUnit.key).Nodup) :
    P ((added.zipIdx first).foldl (fun library (unit, index) =>
      library.insert unit.key unit.kind ⟨document, index⟩) library) fun id =>
        if id.document = document ∧ first ≤ id.index then added[id.index - first]?
        else units id := by
  induction added generalizing library units first with
  | nil =>
    refine Eq.mp (congrArg (P _) (funext fun id => ?_)) h
    split
    · next he =>
      obtain ⟨rfl, hi⟩ := he
      simp [hf id.index hi]
    · rfl
  | cons unit rest ih =>
    obtain ⟨hu, hn⟩ := List.nodup_cons.mp hn
    have hf' : ∀ index, first + 1 ≤ index →
        Function.update units ⟨document, first⟩ (some unit) ⟨document, index⟩ = none := by
      intro index hi
      have hne : (⟨document, index⟩ : UnitId) ≠ ⟨document, first⟩ := by simp; omega
      rw [Function.update_of_ne hne]
      exact hf index (by omega)
    have hv' : ∀ other ∈ rest,
        (library.insert unit.key unit.kind ⟨document, first⟩).get? other.key = none := by
      intro other ho
      have hne : other.key ≠ unit.key := fun he => hu (List.mem_map.mpr ⟨other, ho, he⟩)
      rw [Library.get?_insert, if_neg hne]
      exact hv other (by simp [ho])
    refine Eq.mp (congrArg (P _) (funext fun id => ?_))
      (ih (hlast.insert h (hf first (Nat.le_refl _)) (hv unit (by simp))) hf' hv' hn)
    by_cases he : id = ⟨document, first⟩
    · subst he
      have hlt : ¬ first + 1 ≤ first := by omega
      simp [hlt]
    · rw [Function.update_of_ne he]
      by_cases hd : id.document = document
      · have hne : id.index ≠ first := fun hx => he (by cases id; simp_all)
        by_cases hi : first ≤ id.index
        · have hs : id.index - first = id.index - (first + 1) + 1 := by omega
          have hi' : first + 1 ≤ id.index := by omega
          rw [if_pos ⟨hd, hi'⟩, if_pos ⟨hd, hi⟩, hs, List.getElem?_cons_succ]
        · have hi' : ¬ first + 1 ≤ id.index := by omega
          simp [hi, hi']
      · simp [hd]

theorem addDocument_cases {document : Document} {owner : LibraryId} {id : DocumentId}
    (h : store.addDocument document owner = .ok (id, next)) :
    ∃ library keys, store.library? owner = some library ∧
      (∀ path, document.path = some path → store.samePath? path = none) ∧
      vacantKeys library [] document.units = .ok keys ∧ id = ⟨store.documents.length⟩ ∧
      next = { store.setLibrary owner (insertUnits library id document.units) with
        documents := store.documents ++ [{ document with library := some owner }] } := by
  unfold addDocument at h
  split at h
  · cases h
  · next library hl =>
    split at h
    · cases h
    · next hp =>
      split at h
      · cases h
      · next keys hv =>
        dsimp only at h
        rw [updateLibrary_eq hl] at h
        cases h
        refine ⟨library, keys, hl, fun path he => ?_, hv, rfl, rfl⟩
        simpa [he] using hp

theorem insertUnits_id (library : Library) (id : DocumentId) (units : List DesignUnit) :
    (insertUnits library id units).id = library.id ∧
      (insertUnits library id units).ident = library.ident := by
  unfold insertUnits
  generalize units.zipIdx = entries
  induction entries generalizing library with
  | nil => exact ⟨rfl, rfl⟩
  | cons entry rest ih => exact ih (library.insert entry.1.key entry.1.kind ⟨id, entry.2⟩)

theorem unitIn?_addDocument (store : Store) (document : Document) (library : LibraryId)
    (id : UnitId) :
    unitIn? { store with documents := store.documents ++ [document] } library id =
      if id.document = ⟨store.documents.length⟩ then
        if document.library = some library then document.units[id.index]? else none
      else store.unitIn? library id := by
  have hg : document? { store with documents := store.documents ++ [document] } id.document =
      if id.document = ⟨store.documents.length⟩ then some document
      else store.document? id.document := by
    refine Option.ext fun other => ?_
    simp only [document?, getElem?_concat_iff]
    split
    · next he => simp [he, eq_comm]
    · next he =>
      have hne : id.document.index ≠ store.documents.length := fun hx => he (by rw [← hx])
      simp [hne]
  rw [unitIn?, hg]
  split <;> rfl

theorem samePath?_eq_none_iff {path : SourcePath} : store.samePath? path = none ↔
    ∀ document ∈ store.documents, ∀ p ∈ document.path, p.same path = false := by
  simp only [samePath?, numberedDocuments, Option.map_eq_none_iff, List.find?_eq_none,
    List.forall_mem_map]
  constructor
  · intro h document hd p hp
    obtain ⟨i, hi⟩ := List.mem_iff_getElem?.mp hd
    have hx := h (document, i) (List.mem_zipIdx_iff_getElem?.mpr hi)
    simpa [Option.mem_def.mp hp] using hx
  · rintro h ⟨document, i⟩ hm
    have hd := List.mem_of_getElem? (List.mem_zipIdx_iff_getElem?.mp hm)
    cases hp : document.path with
    | none => simp
    | some p => simp [h document hd p hp]

theorem Each.addDocument (hlast : Library.Lasting P) (he : store.Each P)
    {document : Document} {owner : LibraryId} {id : DocumentId}
    (ha : store.addDocument document owner = .ok (id, next)) : next.Each P := by
  obtain ⟨library, keys, hl, _, hv, rfl, rfl⟩ := addDocument_cases ha
  obtain ⟨hv, hn⟩ := vacantKeys_ok hv
  have hf : ∀ index, 0 ≤ index → store.unitIn? owner ⟨⟨store.documents.length⟩, index⟩ = none :=
    fun index _ => unitIn?_of_document?_eq_none (by simp [document?]) owner
  refine he.replace hl ?_ fun other hne => ?_
  · refine Eq.mp (congrArg (P _) (funext fun id => ?_))
      (insertUnits_induction hlast (he owner library hl) hf (fun u hu => (hv u hu).1) hn)
    rw [unitIn?_addDocument]
    simp
  · funext id
    rw [unitIn?_addDocument]
    split
    · next hd =>
      have hx : ¬ owner = other := fun hx => hne hx.symm
      rw [unitIn?_of_document?_eq_none (by simp [document?, hd])]
      simp [hx]
    · rfl

theorem Registry.addDocument (h : store.Registry) {document : Document} {owner : LibraryId}
    {id : DocumentId} (ha : store.addDocument document owner = .ok (id, next)) :
    next.Registry := by
  have hholds := Each.addDocument Library.lasting_holds h.holds ha
  obtain ⟨library, keys, hl, hp, _, rfl, rfl⟩ := addDocument_cases ha
  obtain ⟨hi, hd⟩ := insertUnits_id library ⟨store.documents.length⟩ document.units
  refine h.replace hl hi hd (fun other ho => ?_) ?_ hholds
  · rcases List.mem_append.mp ho with ho | ho
    · exact h.owned other ho
    · obtain rfl := List.mem_singleton.mp ho
      exact ⟨owner, library, rfl, hl⟩
  · refine List.pairwise_append.mpr ⟨h.paths, List.pairwise_singleton .., fun a ha b hb => ?_⟩
    obtain rfl := List.mem_singleton.mp hb
    intro p hpa q hq
    exact samePath?_eq_none_iff.mp (hp q hq) a ha p hpa

end AddDocument

theorem unitIn?_fillSlots (store : Store) (linked : List LinkedUnit) (library : LibraryId)
    (id : UnitId) : (store.fillSlots linked).unitIn? library id =
      (store.unitIn? library id).map (filled linked id) := by
  rw [unitIn?, unitIn?, document?_fillSlots]
  cases store.document? id.document with
  | none => rfl
  | some document =>
    simp only [Option.map_some, Option.bind_some]
    split
    · exact getElem?_filled ..
    · rfl

theorem unit?_of_unitIn? {library : LibraryId} {unit : DesignUnit}
    (h : store.unitIn? library id = some unit) : store.unit? id = some unit := by
  obtain ⟨document, hd, _, hu⟩ := unitIn?_eq_some_iff.mp h
  rw [unit?, hd, Option.bind_some, hu]

/-- An analysis fills the slots of the units, which keep their kinds and keys. -/
theorem each_analyze (hlast : Library.Lasting P) (he : store.Each P) :
    store.analyze.store.Each P := by
  change (store.fillSlots store.linkUnits).Each P
  intro owner library hl
  have hx : ∀ id unit, store.unitIn? owner id = some unit →
      (filled store.linkUnits id unit).kind = unit.kind ∧
        (filled store.linkUnits id unit).key = unit.key :=
    fun id unit hu => filled_linkUnits (unit?_of_unitIn? hu)
  refine hlast.congr (he owner library hl) (fun id => ?_) fun id => ?_ <;>
  · rw [unitIn?_fillSlots]
    cases hu : store.unitIn? owner id with
    | none => rfl
    | some unit => simp [hx id unit hu]

theorem Registry.analyze (h : store.Registry) : store.analyze.store.Registry := by
  change (store.fillSlots store.linkUnits).Registry
  refine ⟨h.ids, h.names, fun document hd => ?_, ?_, each_analyze Library.lasting_holds h.holds⟩
  · have hm : document.library ∈ store.documents.map Document.library := by
      rw [← map_documents_fillSlots Document.library (fun _ _ => rfl) store store.linkUnits]
      exact List.mem_map_of_mem hd
    obtain ⟨old, ho, he⟩ := List.mem_map.mp hm
    exact he ▸ h.owned old ho
  · have hp := h.paths
    rw [← List.pairwise_map (f := Document.path)
      (R := fun a b => ∀ p ∈ a, ∀ q ∈ b, SourcePath.same p q = false)] at hp ⊢
    exact map_documents_fillSlots Document.path (fun _ _ => rfl) store store.linkUnits ▸ hp

theorem Registry.change (h : store.Registry) (hc : store.Change next) : next.Registry := by
  cases hc with
  | config config => exact h.setConfig config
  | createLibrary hc => exact h.createLibrary hc
  | addDocument ha => exact h.addDocument ha
  | addUnit ha => exact h.addUnit ha
  | modifyUnit hm => exact h.modifyUnit hm
  | analyze => exact h.analyze

theorem Built.registry (h : store.Built) : store.Registry := by
  induction h with
  | empty config => exact .empty config
  | change _ hc ih => exact ih.change hc

/-- A lasting property that units keep when they move to another key holds of all libraries. -/
theorem Built.each (hlast : Library.Lasting P)
    (hrekey : ∀ {library units id unit changed}, P library units → units id = some unit →
      changed.kind = unit.kind → library.get? changed.key = none →
        P (library.rekey unit.key changed.key id) (Function.update units id (some changed)))
    (h : store.Built) : store.Each P := by
  induction h with
  | empty config => exact fun _ _ hl => by simp [library?] at hl
  | change hb hc ih =>
    have hr := hb.registry
    cases hc with
    | config config => exact ih
    | createLibrary hc => exact hr.each_createLibrary hlast ih hc
    | addDocument ha => exact Each.addDocument hlast ih ha
    | addUnit ha => exact Each.addUnit hlast ih ha
    | modifyUnit hm =>
      exact Each.modifyUnit hlast ih (fun hl hu hk hv => hrekey (ih _ _ hl) hu hk hv) hm
    | analyze => exact each_analyze hlast ih

end Vhdl.Store
