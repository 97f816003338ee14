import Vhdl.Proofs.Operations
import Vhdl.Proofs.SameContent

/-! # Load order

A script creates libraries and adds documents to them. Whether it runs through depends on its steps
and not on their order, as long as a library is created before documents are added to it. In every
such order the store ends up with the same content, so an analysis finds the same.
-/

namespace Vhdl

namespace Step

variable {α β : Type} {step : Step α} {next : α → Design → Step β}

def done (step : Step α) : Step Unit :=
  step.andThen fun _ next => next.answer ()

theorem accepted_andThen_iff : (step.andThen next).Accepted ↔
    ∃ answer, step.answer = .ok answer ∧ (next answer step.design).Accepted := by
  unfold Accepted andThen
  cases step.answer with
  | error diagnostic => simp
  | ok answer => simp

theorem design_andThen {answer : α} (h : step.answer = .ok answer) :
    (step.andThen next).design = (next answer step.design).design := by
  rw [andThen, h]

theorem answer_andThen {answer : α} (h : step.answer = .ok answer) :
    (step.andThen next).answer = (next answer step.design).answer := by
  rw [andThen, h]

theorem accepted_done_iff : step.done.Accepted ↔ step.Accepted :=
  accepted_andThen_iff.trans (exists_congr fun _ => and_iff_left ⟨(), rfl⟩)

theorem design_done (step : Step α) : step.done.design = step.design := by
  unfold done andThen
  split <;> rfl

end Step

/-- A step of a script: create a library, or add a document to the library of a name. -/
inductive LoadStep where
  | create (ident : Identifier)
  | add (document : Document) (library : Identifier)

namespace LoadStep

/-- A document for a library that does not exist goes to a handle that nothing has. -/
def perform (design : Design) : LoadStep → Step Unit
  | .create ident => (design.createLibrary ident.text).done
  | .add document library =>
    let owner := (design.store.findLibrary? library).getD ⟨design.store.libraries.length⟩
    (design.addDocument document owner).done

def created? : LoadStep → Option Identifier
  | .create ident => some ident
  | .add _ _ => none

def added? : LoadStep → Option (Document × Identifier)
  | .create _ => none
  | .add document library => some (document, library)

/-- Each library is created before documents are added to it. Those in `created` exist before. -/
def Ordered (created : List String) : List LoadStep → Prop
  | [] => True
  | .create ident :: rest => Ordered (ident.normalized :: created) rest
  | .add _ library :: rest => library.normalized ∈ created ∧ Ordered created rest

instance decidableOrdered : (created : List String) → (steps : List LoadStep) →
    Decidable (Ordered created steps)
  | _, [] => .isTrue trivial
  | created, .create ident :: rest => decidableOrdered (ident.normalized :: created) rest
  | created, .add _ library :: rest =>
    have := decidableOrdered created rest
    inferInstanceAs (Decidable (library.normalized ∈ created ∧ Ordered created rest))

def Sound : LoadStep → Prop
  | .create ident => ident.normalized ≠ "work"
  | .add document _ => (document.units.map DesignUnit.key).Nodup

/-- The two steps do not stand against each other. -/
def Compatible : LoadStep → LoadStep → Prop
  | .create a, .create b => a.normalized ≠ b.normalized
  | .add d a, .add e b => (∀ p ∈ d.path, ∀ q ∈ e.path, p.same q = false) ∧
      (a.normalized = b.normalized → ∀ u ∈ d.units, ∀ v ∈ e.units, u.key ≠ v.key)
  | _, _ => True

theorem Compatible.symm {x y : LoadStep} (h : x.Compatible y) : y.Compatible x := by
  cases x <;> cases y
  · exact Ne.symm h
  · exact h
  · exact h
  · refine ⟨fun p hp q hq => ?_, fun he u hu v hv => (h.2 he.symm v hv u hu).symm⟩
    have hs := h.1 q hq p hp
    rw [SourcePath.same, decide_eq_false_iff_not] at hs ⊢
    exact Ne.symm hs

structure Fits (before : List LoadStep) (step : LoadStep) : Prop where
  sound : step.Sound
  compatible : ∀ other ∈ before, other.Compatible step
  owned : ∀ entry ∈ step.added?, ∃ ident ∈ before.filterMap created?,
    ident.normalized = entry.2.normalized

structure Loadable (steps : List LoadStep) : Prop where
  sound : ∀ step ∈ steps, step.Sound
  compatible : steps.Pairwise Compatible
  ordered : Ordered [] steps

theorem ordered_concat {created : List String} {steps : List LoadStep} {step : LoadStep} :
    Ordered created (steps ++ [step]) ↔ Ordered created steps ∧
      ∀ entry ∈ step.added?, entry.2.normalized ∈ created ∨
        ∃ ident ∈ steps.filterMap created?, ident.normalized = entry.2.normalized := by
  induction steps generalizing created with
  | nil => cases step <;> simp [Ordered, added?]
  | cons first rest ih =>
    cases first with
    | create ident =>
      simp only [List.cons_append, Ordered, ih, List.mem_cons, List.filterMap_cons, created?,
        exists_eq_or_imp, or_assoc]
      refine and_congr_right fun _ => forall₂_congr fun entry _ => ?_
      rw [eq_comm, or_left_comm]
    | add document owner =>
      simp only [List.cons_append, Ordered, ih, List.filterMap_cons, created?, and_assoc]

theorem loadable_concat {steps : List LoadStep} {step : LoadStep} :
    Loadable (steps ++ [step]) ↔ Loadable steps ∧ step.Fits steps := by
  constructor
  · rintro ⟨hs, hc, ho⟩
    obtain ⟨hc, _, hx⟩ := List.pairwise_append.mp hc
    obtain ⟨ho, hl⟩ := ordered_concat.mp ho
    exact ⟨⟨fun x hm => hs x (List.mem_append_left _ hm), hc, ho⟩, hs step (by simp),
      fun x hm => hx x hm step (by simp), fun entry he => (hl entry he).resolve_left (by simp)⟩
  · rintro ⟨⟨hs, hc, ho⟩, hsound, hx, hl⟩
    refine ⟨fun x hm => ?_, List.pairwise_append.mpr ⟨hc, List.pairwise_singleton _ _, ?_⟩,
      ordered_concat.mpr ⟨ho, fun entry he => .inr (hl entry he)⟩⟩
    · rcases List.mem_append.mp hm with hm | hm
      · exact hs x hm
      · exact List.mem_singleton.mp hm ▸ hsound
    · intro x hm y hy
      exact List.mem_singleton.mp hy ▸ hx x hm

theorem Loadable.perm {a b : List LoadStep} (h : Loadable a) (hp : a.Perm b)
    (hb : Ordered [] b) : Loadable b :=
  ⟨fun step hm => h.sound step (hp.mem_iff.mpr hm),
    (hp.pairwise_iff fun hc => hc.symm).mp h.compatible, hb⟩

end LoadStep

open LoadStep

namespace Store

variable {store next : Store} {config : Config} {steps : List LoadStep}

/-- The stored document is the one of the script, in the library that it was meant for. -/
structure Stored (store : Store) (document : Document) (entry : Document × Identifier) : Prop where
  path : document.path = entry.1.path
  units : document.units = entry.1.units
  library : ∃ owner, document.library = some owner ∧ store.findLibrary? entry.2 = some owner

structure Loaded (config : Config) (steps : List LoadStep) (store : Store) : Prop where
  registry : store.Registry
  config : store.config = config
  libraries : store.libraries.map Library.ident = steps.filterMap created?
  documents : List.Forall₂ store.Stored store.documents (steps.filterMap added?)

theorem Stored.library_eq_some_iff {document : Document} {entry : Document × Identifier}
    (hs : store.Stored document entry) (h : store.Registry) {library : Library}
    (hm : library ∈ store.libraries) :
    document.library = some library.id ↔ entry.2.normalized = library.ident.normalized := by
  obtain ⟨owner, ho, hf⟩ := hs.library
  rw [ho, ← hf, h.findLibrary?_iff]
  constructor
  · rintro ⟨other, ho, hid, hn⟩
    obtain rfl := h.library_eq_of_id ho hm hid
    exact hn.symm
  · exact fun hn => ⟨library, hm, rfl, hn.symm⟩

theorem exists_unitIn?_iff {owner : LibraryId} {unit : DesignUnit} :
    (∃ id, store.unitIn? owner id = some unit) ↔
      ∃ document ∈ store.documents, document.library = some owner ∧ unit ∈ document.units := by
  simp only [unitIn?_eq_some_iff]
  constructor
  · rintro ⟨id, document, hd, hl, hu⟩
    exact ⟨document, List.mem_of_getElem? hd, hl, List.mem_of_getElem? hu⟩
  · rintro ⟨document, hd, hl, hu⟩
    obtain ⟨i, hi⟩ := List.mem_iff_getElem?.mp hd
    obtain ⟨j, hj⟩ := List.mem_iff_getElem?.mp hu
    exact ⟨⟨⟨i⟩, j⟩, document, hi, hl, hj⟩

theorem free_iff {owner : LibraryId} {key : UnitKey} : store.Free owner key ↔
    ∀ document ∈ store.documents, document.library = some owner →
      ∀ unit ∈ document.units, unit.key ≠ key := by
  constructor
  · intro h document hd hl unit hu
    obtain ⟨id, hi⟩ := exists_unitIn?_iff.mpr ⟨document, hd, hl, hu⟩
    exact h id unit hi
  · intro h id unit hu
    obtain ⟨document, hd, hl, hm⟩ := exists_unitIn?_iff.mp ⟨id, hu⟩
    exact h document hd hl unit hm

theorem Stored.mono {document : Document} {entry : Document × Identifier}
    (hs : store.Stored document entry) (h : store.Registry) (hn : next.Registry)
    (hl : store.libraries ⊆ next.libraries) : next.Stored document entry := by
  obtain ⟨owner, ho, hf⟩ := hs.library
  obtain ⟨library, hm, hx⟩ := h.findLibrary?_iff.mp hf
  exact ⟨hs.path, hs.units, owner, ho, hn.findLibrary?_iff.mpr ⟨library, hl hm, hx⟩⟩

/-- A stored document stands not against adding another one to the library. -/
def LeavesRoom (owner : LibraryId) (document stored : Document) : Prop :=
  (∀ p ∈ stored.path, ∀ q ∈ document.path, p.same q = false) ∧
    (stored.library = some owner → ∀ u ∈ stored.units, ∀ v ∈ document.units, u.key ≠ v.key)

theorem mayAdd_iff {document : Document} {owner : LibraryId} : store.MayAdd document owner ↔
    (∃ library, store.library? owner = some library) ∧
      (document.units.map DesignUnit.key).Nodup ∧
        ∀ stored ∈ store.documents, LeavesRoom owner document stored := by
  constructor
  · rintro ⟨hk, hp, hn, hf⟩
    exact ⟨hk, hn, fun stored hs => ⟨fun p hm q hq => hp q hq stored hs p hm,
      fun hl u hu v hv => free_iff.mp (hf v hv) stored hs hl u hu⟩⟩
  · rintro ⟨hk, hn, hd⟩
    exact ⟨hk, fun q hq stored hs p hm => (hd stored hs).1 p hm q hq, hn,
      fun v hv => free_iff.mpr fun stored hs hl u hu => (hd stored hs).2 hl u hu v hv⟩

namespace Loaded

theorem empty (config : Config) : Loaded config [] { config } :=
  ⟨.empty config, rfl, rfl, .nil⟩

theorem mem_created_iff (h : Loaded config steps store) {ident : Identifier} :
    ident ∈ steps.filterMap created? ↔ ∃ library ∈ store.libraries, library.ident = ident := by
  rw [← h.libraries, List.mem_map]

theorem mayCreate_iff (h : Loaded config steps store) {ident : Identifier} :
    store.MayCreate ident.text ↔ (create ident).Fits steps := by
  have hcompatible : (∀ other ∈ steps, other.Compatible (create ident)) ↔
      ∀ library ∈ store.libraries, library.ident.normalized ≠ ident.normalized := by
    constructor
    · intro hc library hm
      obtain ⟨step, hs, hx⟩ := List.mem_filterMap.mp (h.mem_created_iff.mpr ⟨library, hm, rfl⟩)
      cases step with
      | create other => exact Option.some.inj hx ▸ hc _ hs
      | add document owner => cases hx
    · intro hl step hs
      cases step with
      | create other =>
        obtain ⟨library, hm, rfl⟩ := h.mem_created_iff.mp (List.mem_filterMap.mpr ⟨_, hs, rfl⟩)
        exact hl library hm
      | add document owner => trivial
  constructor
  · rintro ⟨other, he, hw, hl⟩
    obtain rfl : other = ident := by
      cases other
      cases ident
      cases he
      rfl
    exact ⟨hw, hcompatible.mpr hl, by simp [added?]⟩
  · rintro ⟨hw, hc, _⟩
    exact ⟨ident, rfl, hw, hcompatible.mp hc⟩

/-- A stored document leaves room for another one exactly when their steps are compatible. -/
theorem leavesRoom_iff (h : Loaded config steps store) {document stored : Document}
    {entry : Document × Identifier} (hs : store.Stored stored entry) {ident : Identifier}
    {library : Library} (hm : library ∈ store.libraries)
    (hn : library.ident.normalized = ident.normalized) :
    LeavesRoom library.id document stored ↔
      (add entry.1 entry.2).Compatible (add document ident) := by
  rw [LeavesRoom, hs.library_eq_some_iff h.registry hm, hs.path, hs.units, hn]
  rfl

theorem mayAdd_iff_fits (h : Loaded config steps store) {document : Document} {ident : Identifier}
    {owner : LibraryId} (hf : store.findLibrary? ident = some owner) :
    store.MayAdd document owner ↔ (add document ident).Fits steps := by
  obtain ⟨library, hm, rfl, hn⟩ := h.registry.findLibrary?_iff.mp hf
  rw [mayAdd_iff]
  constructor
  · rintro ⟨_, hd, hl⟩
    refine ⟨hd, fun step hs => ?_, ?_⟩
    · cases step with
      | create other => trivial
      | add other owner =>
        have hx : (other, owner) ∈ steps.filterMap added? := List.mem_filterMap.mpr ⟨_, hs, rfl⟩
        obtain ⟨stored, hm', hs'⟩ := exists_mem_of_forall₂ h.documents.flip hx
        exact (h.leavesRoom_iff hs' hm hn).mp (hl stored hm')
    · rintro _ ⟨⟩
      exact ⟨library.ident, h.mem_created_iff.mpr ⟨library, hm, rfl⟩, hn⟩
  · rintro ⟨hd, hc, _⟩
    refine ⟨⟨library, h.registry.library?_iff.mpr ⟨hm, rfl⟩⟩, hd, fun stored hm' => ?_⟩
    obtain ⟨entry, hx, hs'⟩ := exists_mem_of_forall₂ h.documents hm'
    obtain ⟨step, hs, he⟩ := List.mem_filterMap.mp hx
    cases step with
    | create other => cases he
    | add other owner =>
      cases he
      exact (h.leavesRoom_iff hs' hm hn).mpr (hc _ hs)

theorem createLibrary (h : Loaded config steps store) {ident : Identifier} {id : LibraryId}
    (hc : store.createLibrary ident.text = .ok (id, next)) :
    Loaded config (steps ++ [create ident]) next := by
  have hr := h.registry.createLibrary hc
  have hnext : next.config = store.config ∧ next.documents = store.documents ∧
      next.libraries = store.libraries ++ [({ id, ident } : Library)] := by
    obtain ⟨rfl, rfl⟩ := createLibrary_text_cases hc
    exact ⟨rfl, rfl, rfl⟩
  obtain ⟨hconfig, hdocuments, hlibraries⟩ := hnext
  refine ⟨hr, hconfig.trans h.config, ?_, ?_⟩
  · rw [hlibraries, List.map_append, List.filterMap_append, h.libraries]
    rfl
  · rw [hdocuments, List.filterMap_append, List.filterMap_cons_none rfl, List.filterMap_nil,
      List.append_nil]
    refine h.documents.imp fun _ _ hs => hs.mono h.registry hr ?_
    exact hlibraries ▸ List.subset_append_left _ _

theorem addDocument (h : Loaded config steps store) {document : Document} {ident : Identifier}
    {owner : LibraryId} (hf : store.findLibrary? ident = some owner) {id : DocumentId}
    (ha : store.addDocument document owner = .ok (id, next)) :
    Loaded config (steps ++ [add document ident]) next := by
  have hr := h.registry.addDocument ha
  obtain ⟨library, _, hl, _, _, rfl, rfl⟩ := addDocument_cases ha
  have hn := (insertUnits_id library ⟨store.documents.length⟩ document.units).2
  have hlibraries : (store.setLibrary owner
      (insertUnits library ⟨store.documents.length⟩ document.units)).libraries.map Library.ident =
      store.libraries.map Library.ident := by
    have hx : (store.libraries.map Library.ident)[owner.index]? = some library.ident := by
      rw [List.getElem?_map]
      exact congrArg (Option.map Library.ident) hl
    rw [setLibrary, List.map_set, hn]
    obtain ⟨hlt, hx⟩ := List.getElem?_eq_some_iff.mp hx
    rw [← hx, List.set_getElem_self]
  refine ⟨hr, h.config, ?_, ?_⟩
  · rw [List.filterMap_append, ← h.libraries]
    exact hlibraries.trans (List.append_nil _).symm
  · rw [List.filterMap_append]
    refine List.rel_append (h.documents.imp fun _ _ hs => ⟨hs.path, hs.units, hs.library⟩) ?_
    exact .cons ⟨rfl, rfl, owner, rfl, hf⟩ .nil

theorem contains_iff (h : Loaded config steps store) {ident : Identifier} {unit : DesignUnit} :
    store.Contains ident unit ↔ ident ∈ steps.filterMap created? ∧
      ∃ entry ∈ steps.filterMap added?, entry.2.normalized = ident.normalized ∧
        unit ∈ entry.1.units := by
  rw [h.mem_created_iff]
  simp only [Contains, exists_unitIn?_iff]
  constructor
  · rintro ⟨library, hm, rfl, stored, hd, hl, hu⟩
    obtain ⟨entry, he, hs⟩ := exists_mem_of_forall₂ h.documents hd
    exact ⟨⟨library, hm, rfl⟩, entry, he, (hs.library_eq_some_iff h.registry hm).mp hl,
      hs.units ▸ hu⟩
  · rintro ⟨⟨library, hm, rfl⟩, entry, he, hn, hu⟩
    obtain ⟨stored, hd, hs⟩ := exists_mem_of_forall₂ h.documents.flip he
    exact ⟨library, hm, rfl, stored, hd, (hs.library_eq_some_iff h.registry hm).mpr hn,
      hs.units ▸ hu⟩

theorem length_unitIds (h : Loaded config steps store) : store.unitIds.length =
    ((steps.filterMap added?).map fun entry => entry.1.units.length).sum := by
  rw [store.length_unitIds]
  congr 1
  rw [← List.forall₂_eq_eq_eq, List.forall₂_map_left_iff, List.forall₂_map_right_iff]
  exact h.documents.imp fun _ _ hs => congrArg List.length hs.units

theorem sameContent {other : List LoadStep} (h : Loaded config steps store)
    (h' : Loaded config other next) (hp : steps.Perm other) : store.SameContent next where
  left := h.registry
  right := h'.registry
  config := h.config.trans h'.config.symm
  count := by
    rw [h.length_unitIds, h'.length_unitIds]
    exact ((hp.filterMap added?).map _).sum_eq
  libraries ident := by
    rw [h.libraries, h'.libraries]
    exact (hp.filterMap created?).mem_iff
  units ident unit := by
    rw [h.contains_iff, h'.contains_iff, (hp.filterMap created?).mem_iff]
    simp only [(hp.filterMap added?).mem_iff]

end Loaded

end Store

namespace LoadStep

variable {config : Config} {steps : List LoadStep} {design : Design}

theorem create_spec (h : Store.Loaded config steps design.store) (ident : Identifier) :
    (((create ident).perform design).Accepted ↔ (create ident).Fits steps) ∧
      (((create ident).perform design).Accepted →
        Store.Loaded config (steps ++ [create ident])
          ((create ident).perform design).design.store) := by
  have hiff : ((create ident).perform design).Accepted ↔
      ∃ result, design.store.createLibrary ident.text = .ok result :=
    Step.accepted_done_iff.trans
      (Design.createLibrary_eq design ident.text ▸ Step.accepted_commit_iff)
  refine ⟨hiff.trans (h.registry.createLibrary_ok_iff.trans h.mayCreate_iff), fun hacc => ?_⟩
  obtain ⟨⟨id, next⟩, hc⟩ := hiff.mp hacc
  rw [perform, Step.design_done, Design.createLibrary_eq, Design.commit_of_ok hc]
  exact h.createLibrary hc

theorem add_spec (h : Store.Loaded config steps design.store) (document : Document)
    (ident : Identifier) :
    (((add document ident).perform design).Accepted ↔ (add document ident).Fits steps) ∧
      (((add document ident).perform design).Accepted →
        Store.Loaded config (steps ++ [add document ident])
          ((add document ident).perform design).design.store) := by
  rw [perform]
  cases hf : design.store.findLibrary? ident with
  | none =>
    have hrejected :
        ¬ (design.addDocument document ⟨design.store.libraries.length⟩).done.Accepted := by
      rw [Step.accepted_done_iff, Design.addDocument_eq, Step.accepted_commit_iff]
      rintro ⟨⟨id, next⟩, ha⟩
      obtain ⟨library, _, hl, _⟩ := Store.addDocument_cases ha
      exact absurd (List.getElem?_eq_some_iff.mp hl).1 (Nat.lt_irrefl _)
    have hunfit : ¬ (add document ident).Fits steps := by
      intro hfits
      obtain ⟨_, hc, hn⟩ := hfits.owned (document, ident) rfl
      obtain ⟨library, hm, rfl⟩ := h.mem_created_iff.mp hc
      cases hf.symm.trans (h.registry.findLibrary?_iff.mpr ⟨library, hm, rfl, hn⟩)
    exact ⟨iff_of_false hrejected hunfit, fun hacc => absurd hacc hrejected⟩
  | some owner =>
    dsimp only [Option.getD_some]
    have hiff : (design.addDocument document owner).done.Accepted ↔
        ∃ result, design.store.addDocument document owner = .ok result :=
      Step.accepted_done_iff.trans
        (Design.addDocument_eq design document owner ▸ Step.accepted_commit_iff)
    refine ⟨hiff.trans (h.registry.addDocument_ok_iff.trans (h.mayAdd_iff_fits hf)), fun hacc => ?_⟩
    obtain ⟨⟨id, next⟩, ha⟩ := hiff.mp hacc
    rw [Step.design_done, Design.addDocument_eq, Design.commit_of_ok ha]
    exact h.addDocument hf ha

/-- After some steps another one is accepted exactly when it fits, and then the store holds what it
adds. -/
theorem perform_spec (h : Store.Loaded config steps design.store) (step : LoadStep) :
    ((step.perform design).Accepted ↔ step.Fits steps) ∧
      ((step.perform design).Accepted →
        Store.Loaded config (steps ++ [step]) (step.perform design).design.store) := by
  cases step with
  | create ident => exact create_spec h ident
  | add document ident => exact add_spec h document ident

end LoadStep

namespace Design

def load (design : Design) (steps : List LoadStep) : Step Unit :=
  steps.foldl (fun outcome step => outcome.andThen fun _ next => step.perform next)
    (design.answer ())

theorem load_concat (design : Design) (steps : List LoadStep) (step : LoadStep) :
    design.load (steps ++ [step]) =
      (design.load steps).andThen fun _ next => step.perform next :=
  List.foldl_concat ..

/-- A script is accepted exactly when it is loadable, and then the store holds what it loads. -/
theorem load_spec (config : Config) (steps : List LoadStep) :
    (((withConfig config).load steps).Accepted ↔ Loadable steps) ∧
      (((withConfig config).load steps).Accepted →
        Store.Loaded config steps ((withConfig config).load steps).design.store) := by
  induction steps using List.reverseRecOn with
  | nil =>
    exact ⟨iff_of_true ⟨(), rfl⟩ ⟨by simp, .nil, trivial⟩, fun _ => .empty config⟩
  | append_singleton steps step ih =>
    obtain ⟨hiff, hloaded⟩ := ih
    rw [load_concat, loadable_concat, ← hiff]
    constructor
    · rw [Step.accepted_andThen_iff]
      constructor
      · rintro ⟨_, ha, hs⟩
        exact ⟨⟨_, ha⟩, (perform_spec (hloaded ⟨_, ha⟩) step).1.mp hs⟩
      · rintro ⟨⟨_, ha⟩, hf⟩
        exact ⟨_, ha, (perform_spec (hloaded ⟨_, ha⟩) step).1.mpr hf⟩
    · intro hacc
      obtain ⟨_, ha, hs⟩ := Step.accepted_andThen_iff.mp hacc
      rw [Step.design_andThen ha]
      exact (perform_spec (hloaded ⟨_, ha⟩) step).2 hs

/-- If a script runs through, it runs through in any other order in which libraries are created
before documents are added to them, and an analysis agrees about the two designs. -/
theorem load_order_irrelevant (config : Config) (first second : List LoadStep)
    (hp : first.Perm second) (ho : Ordered [] second)
    (ha : ((withConfig config).load first).Accepted) :
    ((withConfig config).load second).Accepted ∧
      ((withConfig config).load first).design.analyze.design.Agrees
        ((withConfig config).load second).design.analyze.design := by
  obtain ⟨hiff, hloaded⟩ := load_spec config first
  obtain ⟨hiff', hloaded'⟩ := load_spec config second
  have ha' := hiff'.mpr ((hiff.mp ha).perm hp ho)
  exact ⟨ha', ((hloaded ha).sameContent (hloaded' ha') hp).agrees⟩

def depot : Identifier := ⟨"depot", by decide +kernel⟩

def freight : Identifier := ⟨"freight", by decide +kernel⟩

def depotSteps : List LoadStep :=
  [.create depot, .add { units := [{ ident := freight, body := .package none [] }] } depot]

/-- An entity that uses the package of the other library, with an architecture. -/
def yardSteps : List LoadStep :=
  let yard : Identifier := ⟨"yard", by decide +kernel⟩
  let crane : Identifier := ⟨"crane", by decide +kernel⟩
  [.create yard,
    .add { units := [{ ident := ⟨"steel", by decide +kernel⟩
                       body := .architecture { item := crane } [] [] }] } yard,
    .add { units := [{ ident := crane
                       context := [.library [{ item := depot }],
                         .use [{ item := .selected (.simple depot) freight }]]
                       body := .entity none none [] [] }] } yard]

theorem yard_load_order :
    let first := (withConfig {}).load (depotSteps ++ yardSteps)
    let second := (withConfig {}).load (yardSteps ++ depotSteps)
    Ordered [] (yardSteps ++ depotSteps) ∧ first.Accepted ∧
      (first.design.analyze.design.analysis.map fun analysis =>
        (analysis.dependency.vertices.map Prod.fst, analysis.dependency.edgeKeys.length)) =
        some (["depot", "depot.freight", "yard", "yard.crane", "yard.crane(steel)"], 3) ∧
      (second.design.analyze.design.analysis.map fun analysis =>
        (analysis.dependency.vertices.map Prod.fst, analysis.dependency.edgeKeys.length)) =
        some (["yard", "yard.crane", "yard.crane(steel)", "depot", "depot.freight"], 3) ∧
      second.Accepted ∧ first.design.analyze.design.Agrees second.design.analyze.design :=
  have ho : Ordered [] (yardSteps ++ depotSteps) := by decide +kernel
  have ha : ((withConfig {}).load (depotSteps ++ yardSteps)).Accepted :=
    Step.accepted_of_isOk (by decide +kernel)
  ⟨ho, ha, by decide +kernel, by decide +kernel,
    load_order_irrelevant {} _ _ List.perm_append_comm ho ha⟩

end Design

end Vhdl
