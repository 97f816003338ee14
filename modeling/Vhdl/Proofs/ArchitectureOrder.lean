import Vhdl.Proofs.Operations

/-! # The order of architectures

A library lists its architectures in the order of registration, and once more for each entity. The
list of an entity has the same order until an architecture is renamed or moved to another entity.
It is then put back by its handle, which keeps the order exactly if the handles of the architectures
around it tell when they were registered.
-/

namespace Vhdl

namespace Library

/-- Put an element behind those in front that pass a test. It stands between two lists exactly if
the first one passes and the second one does not start with an element that passes. -/
theorem takeWhile_cons_dropWhile_eq_iff {α : Type} {test : α → Bool} {before after : List α} {a : α}
    (hb : a ∉ before) (ha : a ∉ after) :
    (before ++ after).takeWhile test ++ a :: (before ++ after).dropWhile test =
        before ++ a :: after ↔
      (∀ b ∈ before, test b) ∧ ∀ b ∈ after.head?, ¬ test b := by
  have hn : a ∉ before ++ after := by simp [hb, ha]
  have ht : a ∉ (before ++ after).takeWhile test := fun h => hn ((List.takeWhile_sublist _).mem h)
  have hd : a ∉ (before ++ after).dropWhile test := fun h => hn ((List.dropWhile_sublist _).mem h)
  rw [List.append_cons_inj_of_notMem ht hd]
  constructor
  · rintro ⟨ht, _, hd⟩
    refine ⟨fun b hm => List.mem_takeWhile_imp (ht ▸ hm), fun b hm => ?_⟩
    have hh := List.head?_dropWhile_not test (before ++ after)
    rw [hd, Option.mem_def.mp hm] at hh
    simpa using hh
  · rintro ⟨hb, ha⟩
    have hx : after.takeWhile test = [] ∧ after.dropWhile test = after := by
      cases after with
      | nil => exact ⟨rfl, rfl⟩
      | cons b rest => simp [ha b rfl]
    rw [List.takeWhile_append_of_pos hb, List.dropWhile_append_of_pos hb, hx.1, hx.2]
    simp

variable {library : Library} {units : UnitId → Option DesignUnit} {id : UnitId}
  {unit changed : DesignUnit} {entity : String}

theorem filter_ne_eq_self {ids : List UnitId} (h : id ∉ ids) : ids.filter (· ≠ id) = ids :=
  List.filter_eq_self.mpr fun _ ho => decide_eq_true fun he => h (he ▸ ho)

def implements (units : UnitId → Option DesignUnit) (entity : String) (id : UnitId) : Bool :=
  (units id).any fun unit => unit.key.isOf entity

theorem implements_eq_any_key : implements units entity id =
    ((units id).map DesignUnit.key).any (UnitKey.isOf entity) := by
  cases h : units id <;> simp [implements, h]

@[simp] theorem implements_update_self :
    implements (Function.update units id (some unit)) entity id = unit.key.isOf entity := by
  simp [implements]

theorem filter_implements_update {ids : List UnitId} (h : id ∉ ids) (changed : Option DesignUnit) :
    ids.filter (implements (Function.update units id changed) entity) =
      ids.filter (implements units entity) := by
  refine List.filter_congr fun other ho => ?_
  have hne : other ≠ id := fun he => h (he ▸ ho)
  rw [implements, Function.update_of_ne hne, implements]

def registeredFor (library : Library) (units : UnitId → Option DesignUnit) (entity : String) :
    List UnitId :=
  (library.unitsOfKind .architecture).filter (implements units entity)

def InOrder (library : Library) (units : UnitId → Option DesignUnit) : Prop :=
  ∀ entity, library.architecturesOf entity = library.registeredFor units entity

/-- The handle of an architecture tells its place among the architectures of an entity: those
registered before it have smaller handles, and the first one registered after it has a greater
handle. -/
def Fits (library : Library) (units : UnitId → Option DesignUnit) (id : UnitId) (entity : String) :
    Prop :=
  ∀ before after, library.unitsOfKind .architecture = before ++ id :: after →
    (∀ other ∈ before.filter (implements units entity), other.le id) ∧
      ∀ other ∈ (after.filter (implements units entity)).head?, ¬ other.le id

def Increasing (library : Library) : Prop :=
  (library.unitsOfKind .architecture).Pairwise fun a b => b.le a = false

theorem kind_of_isOf (h : unit.key.isOf entity = true) : unit.kind = .architecture := by
  obtain ⟨name, hk⟩ := UnitKey.isOf_iff.mp h
  exact (DesignUnit.key_eq_architecture_iff.mp hk).1

theorem Holds.perm_registeredFor (h : library.Holds units) (entity : String) :
    (library.architecturesOf entity).Perm (library.registeredFor units entity) := by
  refine (List.perm_ext_iff_of_nodup (h.nodup_entity entity) ((h.nodup_kind _).filter _)).mpr
    fun id => ?_
  rw [h.mem_entity, List.mem_filter, h.mem_kind, implements]
  constructor
  · rintro ⟨unit, name, hu, hk⟩
    have ho : unit.key.isOf entity = true := UnitKey.isOf_iff.mpr ⟨name, hk⟩
    exact ⟨⟨unit, hu, kind_of_isOf ho⟩, by simp [hu, ho]⟩
  · rintro ⟨⟨unit, hu, _⟩, ho⟩
    rw [hu, Option.any_some, UnitKey.isOf_iff] at ho
    obtain ⟨name, hk⟩ := ho
    exact ⟨unit, name, hu, hk⟩

theorem Holds.inOrder_insert (h : library.Holds units) (ho : library.InOrder units)
    (hf : units id = none) : (library.insert unit.key unit.kind id).InOrder
      (Function.update units id (some unit)) := by
  intro entity
  have hold : library.byEntity.getD entity [] =
      (library.unitsOfKind .architecture).filter
        (implements (Function.update units id (some unit)) entity) :=
    (ho entity).trans (filter_implements_update (h.not_mem_kind hf _) _).symm
  rw [registeredFor, unitsOfKind_insert]
  refine (getD_appendToEntity ..).trans ?_
  split
  · next hk =>
    rw [hold, kind_of_isOf hk, if_pos rfl, List.filter_append]
    simp [hk]
  · next hk =>
    rw [hold]
    split
    · next hu => simp [← hu, hk]
    · rfl

theorem Holds.architecturesOf_rekey (h : library.Holds units) (hu : units id = some unit)
    (key : UnitKey) {rest : List UnitId}
    (hr : rest = (library.architecturesOf entity).filter (· ≠ id)) :
    (library.rekey unit.key key id).architecturesOf entity =
      if key.isOf entity then rest.takeWhile (·.le id) ++ id :: rest.dropWhile (·.le id)
      else rest := by
  have hrest : (removeFromEntity library.byEntity id unit.key).getD entity [] = rest := by
    rw [getD_removeFromEntity, hr]
    split
    · rfl
    · next hk =>
      refine (filter_ne_eq_self fun hm => ?_).symm
      obtain ⟨unit', name, hu', hn⟩ := (h.mem_entity entity id).mp hm
      cases hu.symm.trans hu'
      exact hk (UnitKey.isOf_iff.mpr ⟨name, hn⟩)
  refine (getD_placeInEntity ..).trans ?_
  rw [hrest]

theorem fits_iff {before after : List UnitId}
    (hsplit : library.unitsOfKind .architecture = before ++ id :: after) (hb : id ∉ before)
    (ha : id ∉ after) : library.Fits units id entity ↔
      (∀ other ∈ before.filter (implements units entity), other.le id) ∧
        ∀ other ∈ (after.filter (implements units entity)).head?, ¬ other.le id := by
  constructor
  · exact fun hf => hf before after hsplit
  · intro hf before' after' hsplit'
    obtain ⟨rfl, _, rfl⟩ :=
      (List.append_cons_inj_of_notMem hb ha).mp (hsplit.symm.trans hsplit')
    exact hf

/-- A unit that moves to another key keeps the order of an entity exactly if it fits, unless it is
no architecture of that entity. -/
theorem Holds.architecturesOf_rekey_eq_iff (h : library.Holds units) (ho : library.InOrder units)
    (hu : units id = some unit) (hk : changed.kind = unit.kind) (entity : String) :
    (library.rekey unit.key changed.key id).architecturesOf entity =
        library.registeredFor (Function.update units id (some changed)) entity ↔
      (changed.key.isOf entity = true → library.Fits units id entity) := by
  rw [h.architecturesOf_rekey hu changed.key rfl, ho entity, registeredFor, registeredFor]
  by_cases hm : id ∈ library.unitsOfKind .architecture
  · obtain ⟨before, after, hsplit⟩ := List.append_of_mem hm
    have hn := h.nodup_kind .architecture
    rw [hsplit, List.nodup_middle, List.nodup_cons, List.mem_append, not_or] at hn
    obtain ⟨⟨hb, ha⟩, _⟩ := hn
    have hrest : ((before ++ id :: after).filter (implements units entity)).filter (· ≠ id) =
        before.filter (implements units entity) ++ after.filter (implements units entity) := by
      rw [List.filter_comm, List.filter_append, List.filter_cons, if_neg (by simp),
        filter_ne_eq_self hb, filter_ne_eq_self ha, List.filter_append]
    rw [fits_iff hsplit hb ha, hsplit, hrest, List.filter_append, List.filter_cons,
      filter_implements_update hb, filter_implements_update ha, implements_update_self]
    split
    · next hc =>
      rw [takeWhile_cons_dropWhile_eq_iff (fun hi => hb (List.mem_of_mem_filter hi))
        fun hi => ha (List.mem_of_mem_filter hi)]
      simp [hc]
    · next hc => simp [hc]
  · have hc : changed.key.isOf entity ≠ true := fun hc =>
      hm ((h.mem_kind _ id).mpr ⟨unit, hu, hk.symm.trans (kind_of_isOf hc)⟩)
    rw [if_neg hc, filter_implements_update hm, List.filter_comm, filter_ne_eq_self hm]
    exact iff_of_true rfl fun hx => (hc hx).elim

theorem Holds.inOrder_rekey_iff (h : library.Holds units) (ho : library.InOrder units)
    (hu : units id = some unit) (hk : changed.kind = unit.kind) :
    (library.rekey unit.key changed.key id).InOrder (Function.update units id (some changed)) ↔
      ∀ entity, changed.key.isOf entity = true → library.Fits units id entity :=
  forall_congr' fun entity => h.architecturesOf_rekey_eq_iff ho hu hk entity

theorem Increasing.fits (h : library.Increasing) (units : UnitId → Option DesignUnit) (id : UnitId)
    (entity : String) : library.Fits units id entity := by
  intro before after hsplit
  rw [Increasing, hsplit, List.pairwise_append, List.pairwise_cons] at h
  obtain ⟨_, ⟨hafter, _⟩, hbefore⟩ := h
  constructor
  · intro other ho
    have hlt := hbefore other (List.mem_of_mem_filter ho) id List.mem_cons_self
    simp only [UnitId.le, Bool.or_eq_false_iff, decide_eq_false_iff_not, Bool.and_eq_false_iff,
      beq_eq_false_iff_ne] at hlt
    simp only [UnitId.le, Bool.or_eq_true, decide_eq_true_eq, Bool.and_eq_true, beq_iff_eq]
    omega
  · intro other ho
    have hlt := hafter other (List.mem_of_mem_filter (List.mem_of_mem_head? ho))
    simp [hlt]

def OrderedIf (condition : Library → Prop) (library : Library)
    (units : UnitId → Option DesignUnit) : Prop :=
  library.Holds units ∧ (condition library → library.InOrder units)

/-- The condition was met before a registration if it is met after it. -/
theorem lasting_orderedIf {condition : Library → Prop}
    (hcond : ∀ library key kind id, condition (library.insert key kind id) → condition library) :
    Lasting (OrderedIf condition) where
  new id ident := ⟨.new id ident, fun _ _ => rfl⟩
  insert h hf hv :=
    ⟨h.1.insert hf hv, fun hc => h.1.inOrder_insert (h.2 (hcond _ _ _ _ hc)) hf⟩
  congr h hk hu := by
    refine ⟨h.1.congr hk hu, fun hc entity => (h.2 hc entity).trans ?_⟩
    refine List.filter_congr fun id _ => ?_
    rw [implements_eq_any_key, implements_eq_any_key, hu]

theorem lasting_ordered : Lasting (OrderedIf fun _ => True) :=
  lasting_orderedIf fun _ _ _ _ hc => hc

theorem increasing_of_insert (library : Library) (key : UnitKey) (kind : UnitKind) (id : UnitId)
    (h : (library.insert key kind id).Increasing) : library.Increasing := by
  rw [Increasing, unitsOfKind_insert] at h
  split at h
  · next hk =>
    subst hk
    exact (List.pairwise_append.mp h).1
  · exact h

end Library

namespace Store

variable {store next : Store} {id : UnitId} {modify : DesignUnit → DesignUnit}

def InOrder (store : Store) : Prop :=
  store.Each Library.InOrder

/-- If an architecture moves to another key, then its handle tells its place among the
architectures of its new entity. -/
def Fits (store : Store) (id : UnitId) (modify : DesignUnit → DesignUnit) : Prop :=
  ∀ owner library unit, store.library? owner = some library →
    store.unitIn? owner id = some unit → (modify unit).kind = unit.kind →
    store.Free owner (modify unit).key → ∀ entity, (modify unit).key.isOf entity = true →
      library.Fits (store.unitIn? owner) id entity

theorem Built.inOrder_of_increasing (h : store.Built) :
    store.Each (Library.OrderedIf Library.Increasing) := by
  refine h.each (Library.lasting_orderedIf Library.increasing_of_insert) fun h hu hk hv => ?_
  refine ⟨h.1.rekey hu hk hv, fun hi => ?_⟩
  exact (h.1.inOrder_rekey_iff (h.2 hi) hu hk).mpr fun entity _ => hi.fits _ _ entity

theorem Registry.each_orderedIf (h : store.Registry) (ho : store.InOrder) :
    store.Each (Library.OrderedIf fun _ => True) :=
  fun owner library hl => ⟨h.holds owner library hl, fun _ => ho owner library hl⟩

theorem inOrder_of_each (h : store.Each (Library.OrderedIf fun _ => True)) : store.InOrder :=
  fun owner library hl => (h owner library hl).2 trivial

/-- Of all changes of a unit, those that fit keep the order. -/
theorem Registry.inOrder_modifyUnit_iff (h : store.Registry) (ho : store.InOrder)
    (hm : store.modifyUnit id modify = .ok ((), next)) : next.InOrder ↔ store.Fits id modify := by
  constructor
  · intro hn owner library unit hl hin hk hfree
    obtain ⟨document, owner', library', unit', hd, hw, hl', hu, _, new, rfl, hm⟩ :=
      modifyUnit_cases hm
    have hin' : store.unitIn? owner' id = some unit' :=
      unitIn?_eq_some_iff.mpr ⟨document, hd, hw, hu⟩
    obtain ⟨rfl, rfl⟩ := unitIn?_unique hin hin'
    cases hl.symm.trans hl'
    rcases hm with ⟨hkey, _⟩ | ⟨_, rfl⟩
    · exact (hfree id unit hin hkey.symm).elim
    · let moved := library.rekey unit.key (modify unit).key id
      have hmoved : (store.setLibrary owner moved).library? owner = some moved :=
        (library?_setLibrary hl moved owner).trans (if_pos rfl)
      refine ((h.holds owner library hl).inOrder_rekey_iff (ho owner library hl) hin hk).mp ?_
      rw [← unitIn?_modifyUnit hd hw hu]
      exact hn owner moved hmoved
  · intro hf
    refine inOrder_of_each (Each.modifyUnit Library.lasting_ordered (h.each_orderedIf ho)
      (fun {owner library unit} hl hu hk hv => ?_) hm)
    have hholds := h.holds owner library hl
    refine ⟨hholds.rekey hu hk hv, fun _ => ?_⟩
    exact (hholds.inOrder_rekey_iff (ho owner library hl) hu hk).mpr
      (hf owner library unit hl hu hk ((h.get?_eq_none_iff hl).mp hv))

end Store

def Operation.Fits (store : Store) : Operation → Prop
  | .modifyUnit id modify => store.Fits id modify
  | _ => True

namespace Design

variable {design : Design}

theorem inOrder_createLibrary (h : design.store.Registry) (ho : design.store.InOrder)
    (name : String) : (design.createLibrary name).design.store.InOrder := by
  rw [createLibrary_eq]
  exact commit_inv (P := fun next => next.store.InOrder) ho fun _ _ hs =>
    Store.inOrder_of_each (h.each_createLibrary Library.lasting_ordered (h.each_orderedIf ho) hs)

theorem inOrder_perform_iff (h : design.store.Registry) (ho : design.store.InOrder)
    (operation : Operation) :
    (operation.perform design).design.store.InOrder ↔ operation.Fits design.store := by
  have hlast := Library.lasting_ordered
  have he := h.each_orderedIf ho
  cases operation with
  | createLibrary name => exact iff_of_true (inOrder_createLibrary h ho name) trivial
  | getOrCreateLibrary name =>
    refine iff_of_true ?_ trivial
    change (design.getOrCreateLibrary name).design.store.InOrder
    unfold getOrCreateLibrary
    split
    · exact ho
    · exact inOrder_createLibrary h ho name
  | addDocument document library =>
    refine iff_of_true ?_ trivial
    change (design.addDocument document library).design.store.InOrder
    rw [addDocument_eq]
    exact commit_inv (P := fun next => next.store.InOrder) ho fun _ _ hs =>
      Store.inOrder_of_each (Store.Each.addDocument hlast he hs)
  | addUnit document unit =>
    refine iff_of_true ?_ trivial
    change (design.addUnit document unit).design.store.InOrder
    rw [addUnit_eq]
    exact commit_inv (P := fun next => next.store.InOrder) ho fun _ _ hs =>
      Store.inOrder_of_each (Store.Each.addUnit hlast he hs)
  | modifyUnit id modify =>
    change (design.modifyUnit id modify).design.store.InOrder ↔ design.store.Fits id modify
    rw [modifyUnit_eq h]
    cases hs : design.store.modifyUnit id modify with
    | error diagnostic =>
      refine iff_of_true ho fun owner library unit hl hu hk hf => ?_
      obtain ⟨next, hm⟩ := h.modifyUnit_ok_iff.mpr ⟨owner, unit, hu, hk, .inr hf⟩
      cases hs.symm.trans hm
    | ok result => exact h.inOrder_modifyUnit_iff ho hs

/-- The designs that operations make out of an empty one if all changes of units fit. -/
inductive Orderly : Design → Prop where
  | start (config : Config) : Orderly (withConfig config)
  | perform {design : Design} (operation : Operation) (fits : operation.Fits design.store) :
      Orderly design → Orderly (operation.perform design).design

theorem Orderly.reachable (h : design.Orderly) : design.Reachable := by
  induction h with
  | start config => exact .start config
  | perform operation _ _ ih => exact ih.perform operation

theorem Orderly.inOrder (h : design.Orderly) : design.store.InOrder := by
  induction h with
  | start config => exact fun _ _ hl => by simp [withConfig, Store.library?] at hl
  | perform operation hf h ih =>
    exact (inOrder_perform_iff h.reachable.grounded.built.registry ih operation).mpr hf

/-- In every reachable design an entity has exactly its architectures, and it has them in the order
of registration if their handles increase in this order. From a design in order an operation leads
to one in order exactly if it fits, so that runs of such operations keep the order. -/
theorem Reachable.architectures_in_order (h : design.Reachable) :
    (∀ owner library, design.store.library? owner = some library → ∀ entity,
      (library.architecturesOf entity).Perm
        (library.registeredFor (design.store.unitIn? owner) entity) ∧
      (library.Increasing → library.architecturesOf entity =
        library.registeredFor (design.store.unitIn? owner) entity)) ∧
    (design.store.InOrder → ∀ operation : Operation,
      (operation.perform design).design.store.InOrder ↔ operation.Fits design.store) ∧
    (design.Orderly → design.store.InOrder) := by
  have hr := h.grounded.built.registry
  refine ⟨fun owner library hl entity => ⟨?_, fun hi => ?_⟩, fun ho operation => ?_, ?_⟩
  · exact (hr.holds owner library hl).perm_registeredFor entity
  · exact (h.grounded.built.inOrder_of_increasing owner library hl).2 hi entity
  · exact inOrder_perform_iff hr ho operation
  · exact Orderly.inOrder

/-- An architecture is added to the first document after one of the second document. -/
def twoLifts : Design :=
  let architecture (ident : Identifier) : DesignUnit :=
    { ident, body := .architecture ⟨⟨"lift", by decide +kernel⟩, none⟩ [] [] }
  let design := ((withConfig {}).createLibrary "tower").design
  let design := (design.addDocument {} ⟨0⟩).design
  let units := [architecture ⟨"early", by decide +kernel⟩]
  let design := (design.addDocument { units } ⟨0⟩).design
  (design.addUnit ⟨0⟩ (architecture ⟨"late", by decide +kernel⟩)).design

def renameLate : Operation :=
  .modifyUnit ⟨⟨0⟩, 0⟩ (·.rename ⟨"later", by decide +kernel⟩)

theorem twoLifts_orderly : twoLifts.Orderly :=
  .perform (.addUnit _ _) trivial (.perform (.addDocument _ _) trivial
    (.perform (.addDocument _ _) trivial (.perform (.createLibrary _) trivial (.start {}))))

def liftsOf (design : Design) : Option (List UnitId × List UnitId) :=
  (design.store.library? ⟨0⟩).map fun library => (library.architecturesOf "lift",
    library.registeredFor (design.store.unitIn? ⟨0⟩) "lift")

theorem not_inOrder_renameLate : ¬ (renameLate.perform twoLifts).design.store.InOrder := by
  intro ho
  have hl : liftsOf (renameLate.perform twoLifts).design =
      some ([⟨⟨0⟩, 0⟩, ⟨⟨1⟩, 0⟩], [⟨⟨1⟩, 0⟩, ⟨⟨0⟩, 0⟩]) := by decide +kernel
  obtain ⟨library, hs, he⟩ := Option.map_eq_some_iff.mp hl
  rw [ho ⟨0⟩ library hs "lift", Prod.mk.injEq] at he
  exact absurd (he.1.symm.trans he.2) (by decide)

theorem twoLifts_in_order : twoLifts.Reachable ∧ twoLifts.store.InOrder ∧
    liftsOf twoLifts = some ([⟨⟨1⟩, 0⟩, ⟨⟨0⟩, 0⟩], [⟨⟨1⟩, 0⟩, ⟨⟨0⟩, 0⟩]) ∧
    ¬ renameLate.Fits twoLifts.store := by
  have h : twoLifts.Reachable := twoLifts_orderly.reachable
  have ho := h.architectures_in_order.2.2 twoLifts_orderly
  refine ⟨h, ho, by decide +kernel, fun hf => ?_⟩
  exact not_inOrder_renameLate ((h.architectures_in_order.2.1 ho renameLate).mpr hf)

/-- An architecture that gets a new name in the same entity goes to the front. -/
theorem renameLate_reorders : (renameLate.perform twoLifts).design.Reachable ∧
    (renameLate.perform twoLifts).answer.isOk = true ∧
    liftsOf (renameLate.perform twoLifts).design =
      some ([⟨⟨0⟩, 0⟩, ⟨⟨1⟩, 0⟩], [⟨⟨1⟩, 0⟩, ⟨⟨0⟩, 0⟩]) ∧
    ¬ (renameLate.perform twoLifts).design.store.InOrder :=
  ⟨twoLifts_orderly.reachable.perform renameLate, by decide +kernel, by decide +kernel,
    not_inOrder_renameLate⟩

end Design

end Vhdl
