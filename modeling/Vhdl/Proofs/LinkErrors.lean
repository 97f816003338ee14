import Vhdl.Proofs.Linking

/-! # Errors of linking

A link is either found or reported. Linking a unit therefore reports as many link errors as it
leaves slots open, all of them at the unit. The contexts and the primary unit that are read on the
way are linked again in silence.
-/

namespace Vhdl

def ErrorCode.isLinkError : ErrorCode → Bool
  | .unresolvedReference | .unresolvedPackageBody | .unresolvedArchitecture => true
  | _ => false

def UnitBody.primarySlot? : UnitBody → Option (EdgeKind × Option Target)
  | .configuration primary _ _ => some (.configurationEntity, primary.target)
  | .architecture primary _ _ => some (.entityImplementation, primary.target)
  | .packageBody primary _ => some (.packageImplementation, primary)
  | .entity .. | .package .. | .context => none

/-- The slots of a unit, each with the kind of edge that a link in it makes. -/
def DesignUnit.slots (unit : DesignUnit) : List (EdgeKind × Option Target) :=
  unit.libraryNames.map (fun name => (.libraryClause, name.target)) ++
    unit.useNames.map (fun name => (.useClause, name.target)) ++
    unit.contextNames.map (fun name => (.contextReference, name.target)) ++
    unit.body.primarySlot?.toList

section Unlinked

variable {α : Type}

def unlinked (names : List (Linked α)) : Nat :=
  names.countP fun name => name.target.isNone

@[simp] theorem unlinked_nil : unlinked ([] : List (Linked α)) = 0 :=
  rfl

@[simp] theorem unlinked_append (xs ys : List (Linked α)) :
    unlinked (xs ++ ys) = unlinked xs + unlinked ys :=
  List.countP_append

theorem unlinked_cons (x : Linked α) (xs : List (Linked α)) :
    unlinked (x :: xs) = unlinked [x] + unlinked xs :=
  unlinked_append [x] xs

end Unlinked

def ContextItem.unlinked (items : List ContextItem) : Nat :=
  Vhdl.unlinked (items.flatMap libraryNames) + Vhdl.unlinked (items.flatMap useNames) +
    Vhdl.unlinked (items.flatMap contextNames)

theorem ContextItem.unlinked_cons (item : ContextItem) (items : List ContextItem) :
    unlinked (item :: items) = unlinked [item] + unlinked items := by
  simp only [unlinked, List.flatMap_cons, List.flatMap_nil, List.append_nil, unlinked_append]
  omega

theorem DesignUnit.countP_slots (unit : DesignUnit) : unit.slots.countP (·.2.isNone) =
    ContextItem.unlinked unit.context + unlinked unit.body.useNames +
      unit.body.primarySlot?.toList.countP (·.2.isNone) := by
  have hu : unlinked unit.useNames =
      unlinked (unit.context.flatMap ContextItem.useNames) + unlinked unit.body.useNames :=
    unlinked_append ..
  have hs : unit.slots.countP (·.2.isNone) = unlinked unit.libraryNames + unlinked unit.useNames +
      unlinked unit.contextNames + unit.body.primarySlot?.toList.countP (·.2.isNone) := by
    simp only [slots, List.countP_append, List.countP_map]
    rfl
  rw [hs, hu, ContextItem.unlinked, libraryNames, contextNames]
  omega

def linkErrors (diagnostics : List Diagnostic) : Nat :=
  diagnostics.countP (·.code.isLinkError)

@[simp] theorem linkErrors_append (xs ys : List Diagnostic) :
    linkErrors (xs ++ ys) = linkErrors xs + linkErrors ys :=
  List.countP_append

namespace Site

/-- What linking reports at a site: a link that was not found, or what the standard does not
know. -/
structure Reports (site : Site) (diagnostic : Diagnostic) : Prop where
  location : diagnostic.location = site.location
  code : diagnostic.code.isLinkError = true ∨ diagnostic.code = .unsupportedStandard

structure LinkError (site : Site) (diagnostic : Diagnostic) : Prop where
  location : diagnostic.location = site.location
  code : diagnostic.code.isLinkError = true

theorem LinkError.reports {site : Site} {diagnostic : Diagnostic} (h : site.LinkError diagnostic) :
    site.Reports diagnostic :=
  ⟨h.location, .inl h.code⟩

section Resolve

variable {α β : Type} (site : Site)

def Explains (attempt : Except Diagnostic α) : Prop :=
  ∀ diagnostic, attempt = .error diagnostic → site.LinkError diagnostic

@[simp] theorem explains_ok (x : α) : site.Explains (.ok x) :=
  nofun

@[simp] theorem explains_error {diagnostic : Diagnostic} :
    site.Explains (.error diagnostic : Except Diagnostic α) ↔ site.LinkError diagnostic :=
  ⟨fun h => h _ rfl, fun h _ he => Except.error.inj he ▸ h⟩

theorem Explains.map {site : Site} {attempt : Except Diagnostic α} (h : site.Explains attempt)
    (f : α → β) : site.Explains (attempt.map f) := by
  cases attempt with
  | ok x => exact site.explains_ok (f x)
  | error diagnostic => exact site.explains_error.mpr (site.explains_error.mp h)

@[simp] theorem linkError_unresolved (message : String) :
    site.LinkError (site.unresolved message) :=
  ⟨rfl, rfl⟩

variable (visibility : Visibility) (name : Name) (kind : UnitKind) (library ident : Identifier)

theorem explains_resolveLibrary : site.Explains (site.resolveLibrary ident) := by
  unfold resolveLibrary
  split
  · simp
  · split <;> simp

theorem explains_resolvePrimary :
    site.Explains (site.resolvePrimary visibility kind library ident) := by
  unfold resolvePrimary
  split
  · simp
  · split
    · simp
    · split <;> simp

theorem explains_resolveUse : site.Explains (site.resolveUse visibility name) := by
  unfold resolveUse
  split
  · split
    · split
      · simp
      · exact (explains_resolvePrimary _ _ _ _ _).map _
    · split <;> simp
  · simp

theorem explains_resolveContext : site.Explains (site.resolveContext visibility name) := by
  unfold resolveContext
  split
  · exact explains_resolvePrimary _ _ _ _ _
  · simp

theorem explains_resolveEntity : site.Explains (site.resolveEntity visibility name) := by
  unfold resolveEntity
  split
  · split <;> simp
  · exact explains_resolvePrimary _ _ _ _ _
  · simp

theorem explains_resolveOwner : site.Explains (site.resolveOwner kind ident) := by
  unfold resolveOwner
  dsimp only
  split
  · simp
  · refine site.explains_error.mpr ⟨rfl, ?_⟩
    by_cases hk : kind = .packageBody <;> simp [Diagnostic.error, ErrorCode.isLinkError, hk]

end Resolve

/-- The second state comes from the first one by reports at the site, so many of which are link
errors. -/
def Logs (site : Site) (s t : ClauseState) (errors : Nat) : Prop :=
  ∃ new, t.diagnostics = s.diagnostics ++ new ∧ (∀ diagnostic ∈ new, site.Reports diagnostic) ∧
    linkErrors new = errors

section Logs

variable {site : Site} {s t u : ClauseState} {m n : Nat} {diagnostic : Diagnostic}
  {f : UnitId → ClauseState → ClauseState}

theorem Logs.of_eq (h : t.diagnostics = s.diagnostics) : site.Logs s t 0 :=
  ⟨[], by rw [h, List.append_nil], List.forall_mem_nil _, rfl⟩

theorem Logs.trans (h : site.Logs s t m) (h' : site.Logs t u n) : site.Logs s u (m + n) := by
  obtain ⟨new, hn, hr, rfl⟩ := h
  obtain ⟨later, hl, hr', rfl⟩ := h'
  exact ⟨new ++ later, by rw [hl, hn, List.append_assoc], List.forall_mem_append.mpr ⟨hr, hr'⟩,
    linkErrors_append ..⟩

theorem logs_report (h : site.LinkError diagnostic) : site.Logs s (s.report diagnostic) 1 :=
  ⟨[diagnostic], rfl, List.forall_mem_singleton.mpr h.reports, by simp [linkErrors, h.code]⟩

theorem logs_linkLibrary (site : Site) (s : ClauseState) (name : Linked Identifier) :
    site.Logs s (site.linkLibrary s name).2 (unlinked [(site.linkLibrary s name).1]) := by
  unfold linkLibrary
  split
  · exact .of_eq rfl
  · next he => exact logs_report (explains_resolveLibrary _ _ _ he)

theorem logs_linkUse (site : Site) (s : ClauseState) (name : Linked Name) :
    site.Logs s (site.linkUse s name).2 (unlinked [(site.linkUse s name).1]) := by
  unfold linkUse
  split
  · exact .of_eq rfl
  · next he => exact logs_report (explains_resolveUse _ _ _ _ he)

theorem logs_reportContextReference (site : Site) (s : ClauseState) (name : Name) :
    site.Logs s (site.reportContextReference s name) 0 := by
  unfold reportContextReference
  split
  · exact .of_eq rfl
  · exact ⟨_, rfl, List.forall_mem_singleton.mpr ⟨rfl, .inr rfl⟩, rfl⟩

theorem logs_linkContext (site : Site)
    (hf : ∀ id state, (f id state).diagnostics = state.diagnostics) (s : ClauseState)
    (name : Linked Name) :
    site.Logs s (site.linkContext f s name).2 (unlinked [(site.linkContext f s name).1]) := by
  have hr := site.logs_reportContextReference s name.item
  unfold linkContext
  dsimp only
  split
  · exact hr.trans (.of_eq (hf _ _))
  · next he =>
    have hl := hr.trans (logs_report (explains_resolveContext _ _ _ _ he))
    rwa [Nat.zero_add] at hl

theorem logs_mapAccum {α : Type} {step : ClauseState → α → α × ClauseState}
    (errors : List α → Nat) (hn : errors [] = 0)
    (hc : ∀ x xs, errors (x :: xs) = errors [x] + errors xs)
    (h : ∀ s x, site.Logs s (step s x).2 (errors [(step s x).1])) (s : ClauseState) (xs : List α) :
    site.Logs s (mapAccum step s xs).2 (errors (mapAccum step s xs).1) := by
  induction xs generalizing s with
  | nil =>
    rw [mapAccum, hn]
    exact .of_eq rfl
  | cons x xs ih =>
    rw [mapAccum, hc]
    exact (h s x).trans (ih (step s x).2)

theorem logs_useNames (site : Site) (s : ClauseState) (names : List (Linked Name)) :
    site.Logs s (mapAccum site.linkUse s names).2 (unlinked (mapAccum site.linkUse s names).1) :=
  logs_mapAccum unlinked unlinked_nil unlinked_cons site.logs_linkUse s names

theorem logs_linkItem (site : Site)
    (hf : ∀ id state, (f id state).diagnostics = state.diagnostics) (s : ClauseState)
    (item : ContextItem) : site.Logs s (site.linkItem f s item).2
      (ContextItem.unlinked [(site.linkItem f s item).1]) := by
  cases item with
  | library names =>
    have h := logs_mapAccum unlinked unlinked_nil unlinked_cons site.logs_linkLibrary s names
    simpa [linkItem, ContextItem.unlinked, ContextItem.libraryNames, ContextItem.useNames,
      ContextItem.contextNames] using h
  | use names =>
    have h := site.logs_useNames s names
    simpa [linkItem, ContextItem.unlinked, ContextItem.libraryNames, ContextItem.useNames,
      ContextItem.contextNames] using h
  | context names =>
    have h := logs_mapAccum unlinked unlinked_nil unlinked_cons (site.logs_linkContext hf) s names
    simpa [linkItem, ContextItem.unlinked, ContextItem.libraryNames, ContextItem.useNames,
      ContextItem.contextNames] using h

theorem logs_linkDecl (site : Site) (s : ClauseState) (decl : Decl) :
    site.Logs s (site.linkDecl s decl).2
      (unlinked ([(site.linkDecl s decl).1].flatMap Decl.useNames)) := by
  unfold linkDecl
  split
  · next names => simpa [Decl.useNames] using site.logs_useNames s names
  · next hn =>
    have he : decl.useNames = [] := by
      unfold Decl.useNames
      split
      · next names => exact absurd rfl (hn names)
      · rfl
    rw [List.flatMap_singleton, he]
    exact .of_eq rfl

theorem logs_linkBody (site : Site) (s : ClauseState) (body : UnitBody) :
    site.Logs s (site.linkBody s body).2 (unlinked (site.linkBody s body).1.useNames) := by
  have hd := logs_mapAccum (fun decls => unlinked (decls.flatMap Decl.useNames)) rfl
    (fun decl decls => by simp) site.logs_linkDecl s
  cases body with
  | configuration entity uses block =>
    exact logs_mapAccum (fun uses => unlinked uses.flatten) rfl (fun names uses => by simp)
      (fun s names => by simpa using site.logs_useNames s names) s uses
  | context => exact .of_eq rfl
  | entity generics ports decls statements => exact hd decls
  | package generics decls => exact hd decls
  | architecture entity decls statements => exact hd decls
  | packageBody package decls => exact hd decls

theorem logs_linkClauses (hf : ∀ id state, (f id state).diagnostics = state.diagnostics)
    (s : ClauseState) (unit : DesignUnit) : site.Logs s (site.linkClauses f s unit).2
      (ContextItem.unlinked (site.linkClauses f s unit).1.context +
        unlinked (site.linkClauses f s unit).1.body.useNames) := by
  have hc := logs_mapAccum ContextItem.unlinked rfl ContextItem.unlinked_cons
    (site.logs_linkItem hf) s unit.context
  rw [linkClauses_eq]
  exact hc.trans (site.logs_linkBody _ unit.body)

end Logs

end Site

namespace Store

/-- What is wrong in a context is reported there and not where it is referenced. -/
theorem diagnostics_importContext (store : Store) (depth : Nat) (id : UnitId)
    (state : ClauseState) : (store.importContext depth id state).diagnostics = state.diagnostics := by
  cases depth with
  | zero => rfl
  | succ depth =>
    unfold importContext
    split
    · rfl
    · dsimp only
      split <;> rfl

end Store

section Attempt

variable {site : Site} {attempt : Except Diagnostic UnitId}

theorem Site.Explains.reports (h : site.Explains attempt) :
    ∀ diagnostic ∈ attemptDiagnostics (some attempt), site.Reports diagnostic := by
  cases attempt with
  | ok id => exact List.forall_mem_nil _
  | error diagnostic => exact List.forall_mem_singleton.mpr (site.explains_error.mp h).reports

theorem Site.Explains.linkErrors_eq (h : site.Explains attempt) (kind : EdgeKind) :
    linkErrors (attemptDiagnostics (some attempt)) =
      [(kind, (attemptUnit? (some attempt)).map Target.unit)].countP (·.2.isNone) := by
  cases attempt with
  | ok id => rfl
  | error diagnostic =>
    have hc := (site.explains_error.mp h).code
    simp [linkErrors, attemptDiagnostics, attemptUnit?, Except.toOption, hc]

end Attempt

theorem Site.kind_linkBody (site : Site) (state : ClauseState) (body : UnitBody) :
    (site.linkBody state body).1.kind = body.kind := by
  cases body <;> rfl

theorem UnitBody.useNames_setPrimary (body : UnitBody) (target : Option Target) :
    (body.setPrimary target).useNames = body.useNames := by
  cases body <;> rfl

namespace Site

variable (site : Site) (unit : DesignUnit) (visibility : Visibility)

theorem reports_owner :
    ∀ diagnostic ∈ attemptDiagnostics (site.owner? unit), site.Reports diagnostic := by
  unfold owner?
  cases unit.primaryName? with
  | none => exact List.forall_mem_nil _
  | some ident => exact (site.explains_resolveOwner unit.kind ident).reports

theorem reports_configured : ∀ diagnostic ∈ attemptDiagnostics (site.configured? visibility unit),
    site.Reports diagnostic := by
  unfold configured?
  split
  · exact (site.explains_resolveEntity visibility _).reports
  · exact List.forall_mem_nil _

theorem reports_unsupportedContext :
    ∀ diagnostic ∈ site.unsupportedContext unit, site.Reports diagnostic := by
  unfold unsupportedContext
  split
  · exact List.forall_mem_singleton.mpr ⟨rfl, .inr rfl⟩
  · exact List.forall_mem_nil _

theorem linkErrors_unsupportedContext : linkErrors (site.unsupportedContext unit) = 0 := by
  unfold unsupportedContext
  split <;> rfl

end Site

namespace Store

variable (store : Store) (library : Library) (id : UnitId) (unit : DesignUnit)

/-- The link to a primary unit is reported if it is not found. Linking the clauses does not touch
it. -/
theorem linkErrors_primary (site : Site) (linked : UnitBody) (visibility : Visibility)
    (hk : linked.kind = unit.body.kind) :
    linkErrors (attemptDiagnostics (site.owner? unit)) +
        linkErrors (attemptDiagnostics (site.configured? visibility unit)) =
      (linked.setPrimary ((attemptUnit? (site.owner? unit) <|>
        attemptUnit? (site.configured? visibility unit)).map .unit)).primarySlot?.toList.countP
          (·.2.isNone) := by
  have hnone : ∀ x : Option UnitId, (x <|> none) = x := fun x => by cases x <;> rfl
  obtain ⟨ident, context, body, doc⟩ := unit
  cases body with
  | architecture entity decls statements =>
    cases linked <;> cases hk
    have h := (site.explains_resolveOwner .architecture entity.item).linkErrors_eq
      .entityImplementation
    rw [← hnone (attemptUnit? _)] at h
    exact h
  | packageBody package decls =>
    cases linked <;> cases hk
    have h := (site.explains_resolveOwner .packageBody ident).linkErrors_eq .packageImplementation
    rw [← hnone (attemptUnit? _)] at h
    exact h
  | configuration entity uses block =>
    cases linked <;> cases hk
    have h := (site.explains_resolveEntity visibility entity.item).linkErrors_eq
      .configurationEntity
    exact (Nat.zero_add _).trans h
  | entity | package | context =>
    cases linked <;> cases hk
    rfl

/-- What linking a unit reports: its diagnostics are at the unit, and there is one link error for
each slot that stays open. -/
theorem log_linkUnit :
    (∀ diagnostic ∈ (store.linkUnit library id unit).diagnostics,
      Site.Reports ⟨store, library, store.locationOf id⟩ diagnostic) ∧
    linkErrors (store.linkUnit library id unit).diagnostics =
      (store.linkUnit library id unit).unit.slots.countP (·.2.isNone) := by
  let site : Site := ⟨store, library, store.locationOf id⟩
  let start : ClauseState := { visibility := site.inherited (attemptUnit? (site.owner? unit)) }
  let linked := site.linkClauses (store.importContext store.unitIds.length) start unit
  obtain ⟨new, hn, hr, hc⟩ : site.Logs start linked.2
      (ContextItem.unlinked linked.1.context + unlinked linked.1.body.useNames) :=
    Site.logs_linkClauses (store.diagnostics_importContext _) start unit
  have hk : linked.1.body.kind = unit.body.kind := by
    unfold linked
    rw [Site.linkClauses_eq]
    exact site.kind_linkBody _ unit.body
  have hp := linkErrors_primary unit site linked.1.body linked.2.visibility hk
  have hd : (store.linkUnit library id unit).diagnostics = site.unsupportedContext unit ++
      attemptDiagnostics (site.owner? unit) ++ new ++
      attemptDiagnostics (site.configured? linked.2.visibility unit) :=
    congrArg (site.unsupportedContext unit ++ attemptDiagnostics (site.owner? unit) ++ · ++
      attemptDiagnostics (site.configured? linked.2.visibility unit)) hn
  rw [hd, DesignUnit.countP_slots]
  refine ⟨?_, ?_⟩
  · simp only [List.forall_mem_append]
    exact ⟨⟨⟨site.reports_unsupportedContext unit, site.reports_owner unit⟩, hr⟩,
      site.reports_configured unit _⟩
  · have hu : (store.linkUnit library id unit).unit.body.useNames = linked.1.body.useNames :=
      UnitBody.useNames_setPrimary ..
    have hs : (store.linkUnit library id unit).unit.body.primarySlot?.toList.countP (·.2.isNone) =
        linkErrors (attemptDiagnostics (site.owner? unit)) +
          linkErrors (attemptDiagnostics (site.configured? linked.2.visibility unit)) := hp.symm
    have hx : (store.linkUnit library id unit).unit.context = linked.1.context := rfl
    simp only [linkErrors_append, site.linkErrors_unsupportedContext unit, hc, hu, hx, hs]
    omega

end Store

end Vhdl
