import Vhdl.Proofs.Consistency
import Vhdl.Proofs.Visibility

/-! # Imported contexts

A context is visited at most once while a unit is linked. If nothing that it imports was visited
before, then a reference to it makes visible exactly what it makes visible itself. A context that
shares an import with an earlier reference may contribute less.
-/

namespace Vhdl

namespace Store

variable {store : Store} {W : List UnitId} {s t : ClauseState} {id : UnitId}

def unvisited (store : Store) (visited : List UnitId) : Nat :=
  (store.unitIds.filter (· ∉ visited)).length

theorem unvisited_le_of_subset {xs ys : List UnitId} (h : xs ⊆ ys) :
    store.unvisited ys ≤ store.unvisited xs := by
  refine (List.monotone_filter_right _ fun id hn => ?_).length_le
  simp only [decide_eq_true_eq] at hn ⊢
  exact fun hm => hn (h hm)

theorem unvisited_cons_lt {visited : List UnitId} (hm : id ∈ store.unitIds) (hn : id ∉ visited) :
    store.unvisited (id :: visited) < store.unvisited visited := by
  have hf : (store.unitIds.filter (· ∉ id :: visited)) =
      (store.unitIds.filter (· ∉ visited)).filter (· ≠ id) := by
    rw [List.filter_filter]
    simp
  rw [unvisited, unvisited, hf]
  exact List.length_filter_lt_length_iff_exists.mpr ⟨id, by simp [hm, hn], by simp⟩

theorem mem_visited_of_unvisited (hid : id ∈ store.unitIds) {visited : List UnitId}
    (h : store.unvisited visited ≤ 0) : id ∈ visited := by
  by_contra hn
  have hlt := unvisited_cons_lt hid hn
  omega

theorem kindOf?_of_resolveContext {site : Site} {visibility : Visibility} {name : Name}
    (h : site.resolveContext visibility name = .ok id) : site.store.kindOf? id = some .context := by
  unfold Site.resolveContext at h
  split at h
  · unfold Site.resolvePrimary at h
    split at h
    · cases h
    · split at h
      · cases h
      · split at h
        · next hk =>
          cases h
          exact hk
        · cases h
  · cases h

theorem mem_unitIds_of_kindOf? {kind : UnitKind} (h : store.kindOf? id = some kind) :
    id ∈ store.unitIds := by
  obtain ⟨unit, hu, _⟩ := Option.map_eq_some_iff.mp h
  exact mem_unitIds_iff.mpr ⟨unit, hu⟩

def walk (store : Store) (depth : Nat) (registered : RegisteredUnit) (visited : List UnitId) :
    ClauseState :=
  (Site.linkClauses ⟨store, registered.library, store.locationOf registered.id⟩
    (store.importContext depth)
    { visibility := .implicit store registered.library, visited } registered.unit).2

theorem importContext_of_mem (depth : Nat) (h : id ∈ s.visited) :
    store.importContext depth id s = s := by
  cases depth with
  | zero => rfl
  | succ depth => rw [importContext, if_pos h]

theorem importContext_of_none (depth : Nat) (h : id ∉ s.visited) (hr : store.registered? id = none) :
    store.importContext (depth + 1) id s = { s with visited := id :: s.visited } := by
  rw [importContext, if_neg h]
  simp only [hr]

theorem importContext_of_some (depth : Nat) (h : id ∉ s.visited) {registered : RegisteredUnit}
    (hr : store.registered? id = some registered) :
    store.importContext (depth + 1) id s =
      { s with
        visibility := s.visibility.merge (store.walk depth registered (id :: s.visited)).visibility
        visited := (store.walk depth registered (id :: s.visited)).visited } := by
  obtain rfl := (registered?_eq_some_iff.mp hr).1
  rw [importContext, if_neg h]
  simp only [hr]
  rfl

theorem subset_visited_walk (depth : Nat) (registered : RegisteredUnit) (visited : List UnitId) :
    visited ⊆ (store.walk depth registered visited).visited := by
  refine ClauseState.Grows.visited
    (s := { visibility := .implicit store registered.library, visited }) ?_
  exact Site.grows_linkClauses (store.grows_importContext depth) registered.unit

theorem mem_visited_importContext (depth : Nat) (id : UnitId) (s : ClauseState) :
    id ∈ (store.importContext (depth + 1) id s).visited := by
  by_cases h : id ∈ s.visited
  · rwa [importContext_of_mem _ h]
  · cases hr : store.registered? id with
    | none =>
      rw [importContext_of_none depth h hr]
      exact List.mem_cons_self
    | some registered =>
      rw [importContext_of_some depth h hr]
      exact subset_visited_walk _ _ _ List.mem_cons_self

end Store

/-- Two links of one unit. The second one has the units of `W` visited in addition, and as long as
the first one visits none of these both see the same. The depths suffice for what is left. -/
structure Paired (store : Store) (W : List UnitId) (p q : Nat) (s t : ClauseState) : Prop where
  left : store.unvisited s.visited ≤ p
  right : store.unvisited t.visited ≤ q
  same : (∀ id ∈ s.visited, id ∉ W) → s.visibility = t.visibility ∧ t.visited = s.visited ++ W

namespace Paired

variable {store : Store} {W : List UnitId} {p q : Nat} {s t s' t' : ClauseState}

theorem of_visited_eq (h : Paired store W p q s t) (hs : s'.visited = s.visited)
    (ht : t'.visited = t.visited)
    (hv : s.visibility = t.visibility → s'.visibility = t'.visibility) : Paired store W p q s' t' := by
  refine ⟨hs ▸ h.left, ht ▸ h.right, fun hd => ?_⟩
  rw [hs] at hd
  obtain ⟨hsame, hvisited⟩ := h.same hd
  exact ⟨hv hsame, by rw [hs, ht, hvisited]⟩

theorem of_grows (h : Paired store W p q s t) (hs : s.Grows s') (ht : t.Grows t')
    (hv : (∀ id ∈ s'.visited, id ∉ W) → s.visibility = t.visibility → t.visited = s.visited ++ W →
      s'.visibility = t'.visibility ∧ t'.visited = s'.visited ++ W) : Paired store W p q s' t' where
  left := Nat.le_trans (Store.unvisited_le_of_subset hs.visited) h.left
  right := Nat.le_trans (Store.unvisited_le_of_subset ht.visited) h.right
  same hd :=
    have hsame := h.same fun id hm => hd id (hs.visited hm)
    hv hd hsame.1 hsame.2

theorem linkLibrary (h : Paired store W p q s t) (site : Site) (name : Linked Identifier) :
    Paired store W p q (site.linkLibrary s name).2 (site.linkLibrary t name).2 := by
  unfold Site.linkLibrary
  split
  · exact h.of_visited_eq rfl rfl fun hv => by rw [hv]
  · exact h.of_visited_eq rfl rfl id

theorem linkUse (h : Paired store W p q s t) (site : Site) (name : Linked Name) :
    Paired store W p q (site.linkUse s name).2 (site.linkUse t name).2 := by
  have hvisited : ∀ state, (site.linkUse state name).2.visited = state.visited := by
    intro state
    unfold Site.linkUse
    split <;> rfl
  refine h.of_visited_eq (hvisited s) (hvisited t) fun hv => ?_
  unfold Site.linkUse
  rw [hv]
  split <;> simp [ClauseState.report, hv]

theorem reportContextReference (h : Paired store W p q s t) (site : Site) (name : Name) :
    Paired store W p q (site.reportContextReference s name) (site.reportContextReference t name) := by
  unfold Site.reportContextReference
  split
  · exact h
  · exact h.of_visited_eq rfl rfl id

theorem linkContext (h : Paired store W p q s t) {f g : UnitId → ClauseState → ClauseState}
    {site : Site} (hi : ∀ id ∈ site.store.unitIds, ∀ s t, Paired store W p q s t →
      Paired store W p q (f id s) (g id t)) (name : Linked Name)
    (hf : ∀ id (s : ClauseState), s.Grows (f id s)) (hg : ∀ id (s : ClauseState), s.Grows (g id s)) :
    Paired store W p q (site.linkContext f s name).2 (site.linkContext g t name).2 := by
  refine h.of_grows (Site.grows_linkContext hf name) (Site.grows_linkContext hg name)
    fun hd hv ht => ?_
  have hr := h.reportContextReference site name.item
  have hs : (site.reportContextReference s name.item).visibility =
      (site.reportContextReference t name.item).visibility := by
    unfold Site.reportContextReference
    split <;> exact hv
  unfold Site.linkContext at hd ⊢
  dsimp only at hd ⊢
  rw [← hs]
  cases hc : site.resolveContext (site.reportContextReference s name.item).visibility name.item with
  | ok id =>
    rw [hc] at hd
    exact (hi id (Store.mem_unitIds_of_kindOf? (Store.kindOf?_of_resolveContext hc)) _ _ hr).same hd
  | error diagnostic =>
    rw [hc] at hd
    exact hr.same hd

theorem walk {visited : List UnitId} (hp : store.unvisited visited ≤ p)
    (hq : store.unvisited (visited ++ W) ≤ q)
    (hi : ∀ id ∈ store.unitIds, ∀ s t, Paired store W p q s t →
      Paired store W p q (store.importContext p id s) (store.importContext q id t))
    (registered : RegisteredUnit) :
    Paired store W p q (store.walk p registered visited) (store.walk q registered (visited ++ W)) :=
  Site.linkClauses_rel (fun _ _ name _ h => h.linkLibrary _ name)
    (fun _ _ name _ h => h.linkUse _ name)
    (fun _ _ name _ h => h.linkContext hi name (store.grows_importContext p)
      (store.grows_importContext q)) ⟨hp, hq, fun _ => ⟨rfl, rfl⟩⟩

/-- The depth does not matter if it suffices, and what was visited before does not matter if it is
not met. -/
theorem importContext (h : Paired store W p q s t) {id : UnitId} (hid : id ∈ store.unitIds) :
    Paired store W p q (store.importContext p id s) (store.importContext q id t) := by
  induction p generalizing q s t id with
  | zero =>
    have hm := Store.mem_visited_of_unvisited hid h.left
    refine h.of_grows (.refl s) (store.grows_importContext q id t) fun _ hv ht => ?_
    rw [Store.importContext_of_mem q (ht ▸ List.mem_append_left W hm)]
    exact ⟨hv, ht⟩
  | succ p ih =>
    refine h.of_grows (store.grows_importContext _ id s) (store.grows_importContext q id t)
      fun hd hv ht => ?_
    by_cases hm : id ∈ s.visited
    · rw [Store.importContext_of_mem _ hm,
        Store.importContext_of_mem q (ht ▸ List.mem_append_left W hm)]
      exact ⟨hv, ht⟩
    · have hw : id ∉ W := hd id (Store.mem_visited_importContext p id s)
      have hn : id ∉ t.visited := by
        rw [ht]
        exact fun h => (List.mem_append.mp h).elim hm hw
      have hls := Store.unvisited_cons_lt hid hm
      have hlt := Store.unvisited_cons_lt hid hn
      have hl := h.left
      have hr := h.right
      obtain ⟨q, rfl⟩ : ∃ k, q = k + 1 := ⟨q - 1, by omega⟩
      cases hreg : store.registered? id with
      | none =>
        rw [Store.importContext_of_none p hm hreg, Store.importContext_of_none q hn hreg]
        exact ⟨hv, by rw [ht, List.cons_append]⟩
      | some registered =>
        rw [Store.importContext_of_some p hm hreg] at hd ⊢
        rw [Store.importContext_of_some q hn hreg]
        have ht' : id :: t.visited = id :: s.visited ++ W := by rw [ht, List.cons_append]
        rw [ht'] at hlt ⊢
        have hwalk : Paired store W p q (store.walk p registered (id :: s.visited))
            (store.walk q registered (id :: s.visited ++ W)) :=
          walk (by omega) (by omega) (fun _ hid _ _ h => ih h hid) registered
        obtain ⟨hvis, hvisited⟩ := hwalk.same hd
        exact ⟨by rw [hv, hvis], hvisited⟩

end Paired

namespace Store

variable {store : Store} {s : ClauseState} {c : UnitId} {context : RegisteredUnit}

def alone (store : Store) (context : RegisteredUnit) : ClauseState :=
  store.walk store.unitIds.length context []

theorem unit?_of_registered? (h : store.registered? c = some context) :
    store.unit? c = some context.unit := by
  obtain ⟨_, hd, _, hu⟩ := registered?_eq_some_iff.mp h
  exact Option.bind_eq_some_iff.mpr ⟨_, hd, hu⟩

theorem registered?_get (store : Store) (h : (store.registered? c).isSome) :
    store.registered? ((store.registered? c).get h).id = some ((store.registered? c).get h) := by
  have hr := (Option.some_get h).symm
  rwa [(registered?_eq_some_iff.mp hr).1]

/-- If a context meets nothing that was visited before, then it adds what it makes visible when it
is linked on its own. -/
theorem importContext_eq_merge (hc : store.registered? c = some context) (hn : c ∉ s.visited)
    (hd : ∀ id ∈ (store.alone context).visited, id ∉ c :: s.visited) :
    store.importContext store.unitIds.length c s =
      { s with
        visibility := s.visibility.merge (store.alone context).visibility
        visited := (store.alone context).visited ++ c :: s.visited } := by
  have hlt := unvisited_cons_lt (mem_unitIds_iff.mpr ⟨_, unit?_of_registered? hc⟩) hn
  have hle : ∀ visited, store.unvisited visited ≤ store.unitIds.length := fun _ =>
    List.length_filter_le _ _
  have hs := hle s.visited
  obtain ⟨depth, hdepth⟩ : ∃ depth, store.unitIds.length = depth + 1 :=
    ⟨store.unitIds.length - 1, by omega⟩
  have hwalk : Paired store (c :: s.visited) store.unitIds.length depth (store.alone context)
      (store.walk depth context ([] ++ c :: s.visited)) :=
    Paired.walk (hle _) (by rw [List.nil_append]; omega) (fun _ hid _ _ h => h.importContext hid)
      context
  obtain ⟨hv, hvisited⟩ := hwalk.same hd
  rw [List.nil_append] at hv hvisited
  rw [hdepth, importContext_of_some depth hn hc, ← hv, hvisited]

theorem visibility_linkUnit (hk : context.unit.kind = .context) :
    (store.linkUnit context.library context.id context.unit).visibility =
      (store.alone context).visibility := by
  obtain ⟨id, library, document, ⟨ident, clause, body, doc⟩⟩ := context
  cases body with
  | context => rfl
  | _ => cases hk

end Store

theorem Site.reportContextReference_eq (site : Site) (state : ClauseState) (name : Name) :
    (site.reportContextReference state name).visibility = state.visibility ∧
      (site.reportContextReference state name).visited = state.visited := by
  unfold reportContextReference
  split <;> exact ⟨rfl, rfl⟩

def Store.knownAfter (store : Store) (u : RegisteredUnit) (items : List ContextItem) :
    ClauseState :=
  let site : Site := ⟨store, u.library, store.locationOf u.id⟩
  (mapAccum (site.linkItem (store.importContext store.unitIds.length))
    { visibility := site.inherited (attemptUnit? (site.owner? u.unit)) } items).2

/-- A context reference of a unit, with what stands before and after it in the context clause. -/
structure ContextReference (unit : DesignUnit) where
  before : List ContextItem
  names : List (Linked Name)
  name : Linked Name
  rest : List (Linked Name)
  after : List ContextItem
  clause : unit.context = before ++ .context (names ++ name :: rest) :: after

namespace ContextReference

variable {u c : RegisteredUnit} (reference : ContextReference u.unit) (store : Store)

def known : ClauseState :=
  store.knownAfter u (reference.before ++ [.context reference.names])

def next : ClauseState :=
  store.knownAfter u (reference.before ++ [.context (reference.names ++ [reference.name])])

def Resolves (c : RegisteredUnit) : Prop :=
  Site.resolveContext ⟨store, u.library, store.locationOf u.id⟩ (reference.known store).visibility
    reference.name.item = .ok c.id

/-- Neither the context nor anything that it imports was visited before the reference, and the
context does not import itself. -/
structure Fresh (c : RegisteredUnit) : Prop where
  new : c.id ∉ (reference.known store).visited
  apart : ∀ id ∈ (store.alone c).visited, id ∉ c.id :: (reference.known store).visited

theorem next_eq : reference.next store =
    (Site.linkContext ⟨store, u.library, store.locationOf u.id⟩
      (store.importContext store.unitIds.length) (reference.known store) reference.name).2 := by
  unfold next known Store.knownAfter
  dsimp only
  rw [snd_mapAccum_append, snd_mapAccum_append]
  exact snd_mapAccum_append (Site.linkContext _ _) _ reference.names [reference.name]

theorem knownAfter_clause : store.knownAfter u u.unit.context =
    (mapAccum (Site.linkItem ⟨store, u.library, store.locationOf u.id⟩
      (store.importContext store.unitIds.length)) (reference.next store)
      (.context reference.rest :: reference.after)).2 := by
  unfold next Store.knownAfter
  dsimp only
  rw [reference.clause, List.append_cons reference.names, snd_mapAccum_append, snd_mapAccum_append]
  exact congrArg (fun s => (mapAccum (Site.linkItem _ _) s reference.after).2)
    (snd_mapAccum_append (Site.linkContext _ _) _ (reference.names ++ [reference.name])
      reference.rest)

theorem within_linkUnit : (reference.next store).visibility.Within
    (store.linkUnit u.library u.id u.unit).visibility := by
  have hg : (reference.next store).Grows
      (Site.linkClauses ⟨store, u.library, store.locationOf u.id⟩
        (store.importContext store.unitIds.length) (reference.next store)
        { u.unit with context := .context reference.rest :: reference.after }).2 :=
    Site.grows_linkClauses (store.grows_importContext _) _
  have he : (store.linkUnit u.library u.id u.unit).visibility =
      (Site.linkBody ⟨store, u.library, store.locationOf u.id⟩ (store.knownAfter u u.unit.context)
        u.unit.body).2.visibility :=
    congrArg (·.2.visibility) (Site.linkClauses_eq ..)
  rw [Site.linkClauses_eq] at hg
  rw [he, reference.knownAfter_clause store]
  exact hg.visibility

/-- A reference that is fresh contributes what its context makes visible, whatever was referenced
before it. -/
theorem Fresh.next_visibility {reference : ContextReference u.unit} {store : Store}
    (hf : reference.Fresh store c) (hc : store.registered? c.id = some c)
    (hr : reference.Resolves store c) : (reference.next store).visibility =
      (reference.known store).visibility.merge (store.linkUnit c.library c.id c.unit).visibility := by
  have hk : c.unit.kind = .context := by
    have hk := Store.kindOf?_of_resolveContext hr
    rw [Store.kindOf?, Store.unit?_of_registered? hc] at hk
    exact Option.some.inj hk
  have hs := Site.reportContextReference_eq ⟨store, u.library, store.locationOf u.id⟩
    (reference.known store) reference.name.item
  have hi := Store.importContext_eq_merge hc (hs.2 ▸ hf.new) (hs.2 ▸ hf.apart)
  unfold Resolves at hr
  rw [Store.visibility_linkUnit hk, next_eq, Site.linkContext]
  rw [hs.1, hr]
  dsimp only
  rw [hi, hs.1]

end ContextReference

/-- A reference that is fresh contributes exactly what its context makes visible, and the unit sees
it in the end. -/
theorem Store.fresh_reference_contributes (store : Store) {u c : RegisteredUnit}
    (hc : store.registered? c.id = some c) (reference : ContextReference u.unit)
    (hr : reference.Resolves store c) (hf : reference.Fresh store c) :
    (reference.next store).visibility =
        (reference.known store).visibility.merge (store.linkUnit c.library c.id c.unit).visibility ∧
      (store.linkUnit u.library u.id u.unit).visibility.Includes
        (store.linkUnit c.library c.id c.unit).visibility := by
  have hn := hf.next_visibility hc hr
  refine ⟨hn, Visibility.Includes.mono ?_ (reference.within_linkUnit store)⟩
  rw [hn]
  exact Visibility.merge_includes ..

def LinkedUnit.contexts (linked : LinkedUnit) : List UnitId :=
  linked.unit.contextNames.filterMap fun name => name.target.bind Target.unit?

/-- The references between contexts always lead to contexts of lower rank. -/
def Store.ContextsAcyclic (store : Store) : Prop :=
  ∃ rank : UnitId → Nat, ∀ linked ∈ store.linkUnits, linked.unit.kind = .context →
    ∀ id ∈ linked.contexts, rank id < rank linked.id

/-! An entity that refers to `base` and then to `right`, which imports `base`, misses the package
that `right` makes visible. An entity that refers to `plain` and then to `right` sees it. -/

namespace SharedContext

def work : Identifier := ⟨"work", by decide +kernel⟩

def other : Identifier := ⟨"other", by decide +kernel⟩

def pkg : Identifier := ⟨"pkg", by decide +kernel⟩

def base : Identifier := ⟨"base", by decide +kernel⟩

def plain : Identifier := ⟨"plain", by decide +kernel⟩

def right : Identifier := ⟨"right", by decide +kernel⟩

def dotted (first second : Identifier) : Linked Name :=
  { item := .selected (.simple first) second }

def contexts : List DesignUnit :=
  [{ ident := base, context := [.library [{ item := other }]], body := .context },
    { ident := plain, body := .context },
    { ident := right
      context := [.context [dotted work base], .use [dotted other pkg]]
      body := .context }]

def entity (ident first : Identifier) : DesignUnit where
  ident
  context := [.context [dotted work first], .context [dotted work right]]
  body := .entity none none [] []

def design : Design :=
  let packages : List DesignUnit := [{ ident := pkg, body := .package none [] }]
  let entities : List DesignUnit :=
    [entity ⟨"near", by decide +kernel⟩ base, entity ⟨"far", by decide +kernel⟩ plain]
  let design := ((Design.withConfig {}).createLibrary "other").design
  let design := (design.createLibrary "lib").design
  let design := (design.addDocument { units := packages } ⟨0⟩).design
  let design := (design.addDocument { units := contexts } ⟨1⟩).design
  (design.addDocument { units := entities } ⟨1⟩).design

theorem reachable : design.Reachable :=
  .addDocument _ _ (.addDocument _ _ (.addDocument _ _
    (.createLibrary _ (.createLibrary _ (.start _)))))

def far : RegisteredUnit :=
  (design.store.registered? ⟨⟨2⟩, 1⟩).get (by decide +kernel)

def rightUnit : RegisteredUnit :=
  (design.store.registered? ⟨⟨1⟩, 2⟩).get (by decide +kernel)

def reference : ContextReference far.unit where
  before := [.context [dotted work plain]]
  names := []
  name := dotted work right
  rest := []
  after := []
  clause := rfl

theorem fresh : reference.Fresh design.store rightUnit :=
  ⟨by decide +kernel, by decide +kernel⟩

theorem resolves : reference.Resolves design.store rightUnit := by
  rfl

theorem far_includes_right : design.store.registered? rightUnit.id = some rightUnit ∧
    (reference.known design.store).visited = [⟨⟨1⟩, 1⟩] ∧
    reference.Resolves design.store rightUnit ∧ reference.Fresh design.store rightUnit ∧
    (reference.next design.store).visibility =
      (reference.known design.store).visibility.merge
        (design.store.linkUnit rightUnit.library rightUnit.id rightUnit.unit).visibility ∧
    (design.store.linkUnit far.library far.id far.unit).visibility.Includes
      (design.store.linkUnit rightUnit.library rightUnit.id rightUnit.unit).visibility :=
  have hc := design.store.registered?_get _
  ⟨hc, by decide +kernel, resolves, fresh,
    design.store.fresh_reference_contributes hc reference resolves fresh⟩

/-- No context is referenced in a circle, and still a unit may miss a name of a context that it
refers to. -/
theorem near_misses_package : design.Reachable ∧ design.store.ContextsAcyclic ∧
    ∃ u ∈ design.store.linkUnits, ∃ c ∈ design.store.linkUnits, c.unit.kind = .context ∧
      c.id ∈ u.contexts ∧ ¬ u.visibility.Includes c.visibility := by
  refine ⟨reachable, ⟨UnitId.index, by decide +kernel⟩,
    design.store.linkUnits.get ⟨4, by decide +kernel⟩, List.get_mem ..,
    design.store.linkUnits.get ⟨3, by decide +kernel⟩, List.get_mem .., by decide +kernel,
    by decide +kernel, fun h => ?_⟩
  have hp := h.packages ("pkg", ⟨⟨0⟩, 0⟩) (by decide +kernel)
  exact absurd hp (by decide +kernel)

end SharedContext

end Vhdl
