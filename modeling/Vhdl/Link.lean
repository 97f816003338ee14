import Vhdl.Visibility

/-! # Linking

Linking finds out what the names in clauses and the primary names of units stand for, and fills the
slots of the units. A name that stands for nothing leaves its slot empty and gives a diagnostic.
Slots that are already filled play no role.
-/

namespace Vhdl

/-- Where names are looked up: the library of a unit, and the location of diagnostics. -/
structure Site where
  store : Store
  library : Library
  location : Location

/-- What is known after a part of a context clause. The contexts in `visited` were already
imported or are being imported. -/
structure ClauseState where
  visibility : Visibility
  visited : List UnitId := []
  diagnostics : List Diagnostic := []

def ClauseState.report (state : ClauseState) (diagnostic : Diagnostic) : ClauseState :=
  { state with diagnostics := state.diagnostics ++ [diagnostic] }

/-- Change the elements of a list from left to right and pass a state along. -/
def mapAccum {σ α : Type} (f : σ → α → α × σ) (state : σ) : List α → List α × σ
  | [] => ([], state)
  | x :: rest =>
    let (y, state) := f state x
    let (ys, state) := mapAccum f state rest
    (y :: ys, state)

inductive ClauseKind where
  | library
  | use
  | context
  deriving DecidableEq, Repr

/-- What the names of a unit were linked to, in the order in which the unit lists them. -/
structure UnitLinks where
  libraries : List (Option Target) := []
  uses : List (Option Target) := []
  contexts : List (Option Target) := []

def UnitLinks.push (links : UnitLinks) (clause : ClauseKind) (target : Option Target) :
    UnitLinks :=
  match clause with
  | .library => { links with libraries := links.libraries ++ [target] }
  | .use => { links with uses := links.uses ++ [target] }
  | .context => { links with contexts := links.contexts ++ [target] }

/-- Set a slot to the next target. A slot is left alone if there is none. -/
def Linked.fill {α : Type} (targets : List (Option Target)) (name : Linked α) :
    Linked α × List (Option Target) :=
  match targets with
  | [] => (name, [])
  | target :: rest => (name.set target, rest)

/-- Fill the slots of the item if it is a clause of that kind. -/
def ContextItem.fill (clause : ClauseKind) (targets : List (Option Target)) (item : ContextItem) :
    ContextItem × List (Option Target) :=
  match clause, item with
  | .library, .library names =>
    let (names, rest) := mapAccum Linked.fill targets names
    (.library names, rest)
  | .use, .use names =>
    let (names, rest) := mapAccum Linked.fill targets names
    (.use names, rest)
  | .context, .context names =>
    let (names, rest) := mapAccum Linked.fill targets names
    (.context names, rest)
  | _, item => (item, targets)

def Decl.fillUses (targets : List (Option Target)) : Decl → Decl × List (Option Target)
  | .useClause names =>
    let (names, rest) := mapAccum Linked.fill targets names
    (.useClause names, rest)
  | decl => (decl, targets)

def UnitBody.fillUses (targets : List (Option Target)) : UnitBody → UnitBody
  | .configuration primary uses block =>
    .configuration primary (mapAccum (mapAccum Linked.fill) targets uses).1 block
  | body => body.mapDecls fun decls => (mapAccum Decl.fillUses targets decls).1

/-- Zip the links onto the names of a unit, one list after the other. -/
def UnitLinks.apply (links : UnitLinks) (unit : DesignUnit) : DesignUnit :=
  let (context, _) := mapAccum (ContextItem.fill .library) links.libraries unit.context
  let (context, rest) := mapAccum (ContextItem.fill .use) links.uses context
  let (context, _) := mapAccum (ContextItem.fill .context) links.contexts context
  { unit with context, body := unit.body.fillUses rest }

def article (noun : String) : String :=
  match noun.toList.head? with
  | some 'a' | some 'e' | some 'i' | some 'o' | some 'u' => "an"
  | _ => "a"

namespace Site

def unresolved (site : Site) (message : String) : Diagnostic :=
  .unresolvedReference site.location message

/-- In a library clause `work` stands for the own library. -/
def resolveLibrary (site : Site) (ident : Identifier) : Except Diagnostic LibraryId :=
  if ident.normalized = "work" then .ok site.library.id
  else
    match site.store.findLibrary? ident with
    | some id => .ok id
    | none => .error (site.unresolved ("No such library '" ++ ident.text ++ "'"))

def missing (kind : UnitKind) (ident : Identifier) (library : Library) : String :=
  "No " ++ kind.describe ++ " '" ++ ident.text ++ "' in library '" ++ library.name ++ "'"

/-- The primary unit of that kind in a visible library. -/
def resolvePrimary (site : Site) (visibility : Visibility) (kind : UnitKind)
    (libraryName ident : Identifier) : Except Diagnostic UnitId :=
  match (visibility.library? libraryName.normalized).bind site.store.library? with
  | none => .error (site.unresolved ("No library '" ++ libraryName.text ++ "' is visible"))
  | some library =>
    match library.get? (.primary ident.normalized) with
    | none => .error (site.unresolved (missing kind ident library))
    | some id =>
      if site.store.kindOf? id = some kind then .ok id
      else
        let actual := ((site.store.kindOf? id).map UnitKind.describe).getD "unit"
        .error (site.unresolved
          ("'" ++ ident.text ++ "' in library '" ++ library.name ++ "' is " ++ article actual ++
            " " ++ actual ++ ", not " ++ article kind.describe ++ " " ++ kind.describe))

/-- A use name starts with a visible library or with a package that is already visible. -/
def resolveUse (site : Site) (visibility : Visibility) (name : Name) : Except Diagnostic Target :=
  match name.segments? with
  | some (first :: rest, _) =>
    match visibility.library? first.normalized with
    | some library =>
      match rest with
      | [] => .ok (.library library)
      | package :: _ => (site.resolvePrimary visibility .package first package).map .unit
    | none =>
      match visibility.package? first.normalized with
      | some package => .ok (.unit package)
      | none =>
        .error (site.unresolved ("No library or package '" ++ first.text ++ "' is visible"))
  | _ => .error (site.unresolved ("Invalid name '" ++ name.render ++ "' in use clause"))

def resolveContext (site : Site) (visibility : Visibility) (name : Name) :
    Except Diagnostic UnitId :=
  match name.segments? with
  | some ([library, ident], false) => site.resolvePrimary visibility .context library ident
  | _ =>
    .error (site.unresolved
      ("Invalid context reference '" ++ name.render ++ "', expected library.context"))

/-- The entity of a configuration. A simple name is looked up in the own library. -/
def resolveEntity (site : Site) (visibility : Visibility) (name : Name) :
    Except Diagnostic UnitId :=
  match name.segments? with
  | some ([ident], false) =>
    match site.store.primaryOfKind? site.library ident .entity with
    | some id => .ok id
    | none => .error (site.unresolved (missing .entity ident site.library))
  | some ([library, ident], false) => site.resolvePrimary visibility .entity library ident
  | _ => .error (site.unresolved ("Invalid entity name '" ++ name.render ++ "' in configuration"))

/-- The primary unit of a secondary unit of that kind. -/
def resolveOwner (site : Site) (kind : UnitKind) (ident : Identifier) :
    Except Diagnostic UnitId :=
  let (expected, code) : UnitKind × ErrorCode :=
    if kind = .packageBody then (.package, .unresolvedPackageBody)
    else (.entity, .unresolvedArchitecture)
  match site.store.primaryOfKind? site.library ident expected with
  | some id => .ok id
  | none => .error (.error site.location (missing expected ident site.library) code)

/-- Link a name of a library clause. -/
def linkLibrary (site : Site) (state : ClauseState) (name : Linked Identifier) :
    Linked Identifier × ClauseState :=
  match site.resolveLibrary name.item with
  | .ok id =>
    (name.set (some (.library id)),
      { state with
        visibility := state.visibility.addLibrary ⟨name.item.normalized, id, true⟩ })
  | .error diagnostic => (name.set none, state.report diagnostic)

/-- Make a unit visible that a use clause names. -/
def usePackage (site : Site) (visibility : Visibility) : Target → Visibility
  | .unit id =>
    match site.store.unit? id with
    | some package => visibility.addPackage (package.ident.normalized, id)
    | none => visibility
  | .library _ => visibility

/-- Link a name of a use clause. -/
def linkUse (site : Site) (state : ClauseState) (name : Linked Name) :
    Linked Name × ClauseState :=
  match site.resolveUse state.visibility name.item with
  | .ok target =>
    (name.set (some target),
      { state with visibility := site.usePackage state.visibility target })
  | .error diagnostic => (name.set none, state.report diagnostic)

/-- A context reference where the standard knows no contexts. -/
def reportContextReference (site : Site) (state : ClauseState) (name : Name) : ClauseState :=
  if site.store.config.standard.supportsContexts then state
  else
    state.report (.error site.location
      ("Context reference '" ++ name.render ++ "' requires VHDL-2008 or later")
      .unsupportedStandard)

/-- Link a name of a context reference, and let `importContext` make visible what the context
makes visible. -/
def linkContext (site : Site) (importContext : UnitId → ClauseState → ClauseState)
    (state : ClauseState) (name : Linked Name) : Linked Name × ClauseState :=
  let state := site.reportContextReference state name.item
  match site.resolveContext state.visibility name.item with
  | .ok id => (name.set (some (.unit id)), importContext id state)
  | .error diagnostic => (name.set none, state.report diagnostic)

/-- Push what a name was linked to. -/
def collect {α : Type} (link : ClauseState → Linked α → Linked α × ClauseState)
    (clause : ClauseKind) (walk : UnitLinks × ClauseState) (name : Linked α) :
    UnitLinks × ClauseState :=
  let (linked, state) := link walk.2 name
  (walk.1.push clause linked.target, state)

def collectItem (site : Site) (importContext : UnitId → ClauseState → ClauseState)
    (walk : UnitLinks × ClauseState) : ContextItem → UnitLinks × ClauseState
  | .library names => names.foldl (collect site.linkLibrary .library) walk
  | .use names => names.foldl (collect site.linkUse .use) walk
  | .context names => names.foldl (collect (site.linkContext importContext) .context) walk

/-- Walk the context clause of a unit and then its other use clauses, which are behind those of the
context clause in the list of all use clauses. -/
def collectLinks (site : Site) (importContext : UnitId → ClauseState → ClauseState)
    (state : ClauseState) (unit : DesignUnit) : UnitLinks × ClauseState :=
  let walk := unit.context.foldl (site.collectItem importContext) ({}, state)
  (unit.useNames.drop walk.1.uses.length).foldl (collect site.linkUse .use) walk

/-- Link the clauses of a unit and fill its slots with the links. -/
def linkClauses (site : Site) (importContext : UnitId → ClauseState → ClauseState)
    (state : ClauseState) (unit : DesignUnit) : DesignUnit × ClauseState :=
  let (links, state) := site.collectLinks importContext state unit
  (links.apply unit, state)

end Site

namespace Store

/-- Make visible what a context makes visible. A context that was visited is not visited again,
so the depth of nested contexts is at most the number of units. -/
def importContext (store : Store) : Nat → UnitId → ClauseState → ClauseState
  | 0, _, state => state
  | depth + 1, id, state =>
    if id ∈ state.visited then state
    else
      let state := { state with visited := id :: state.visited }
      match store.registered? id with
      | none => state
      | some { library, unit, .. } =>
        let site : Site := ⟨store, library, store.locationOf id⟩
        let inner := (site.linkClauses (store.importContext depth)
          { visibility := .implicit store library, visited := state.visited } unit).2
        { state with
          visibility := state.visibility.merge inner.visibility
          visited := inner.visited }

/-- The clauses of a unit, linked, and what is known after them. -/
def linkClauses (store : Store) (site : Site) (visibility : Visibility) (unit : DesignUnit) :
    DesignUnit × ClauseState :=
  site.linkClauses (store.importContext store.unitIds.length) { visibility } unit

end Store

structure LinkedUnit where
  id : UnitId
  /-- The unit with its slots filled. -/
  unit : DesignUnit
  visibility : Visibility
  diagnostics : List Diagnostic

namespace Site

/-- The primary unit of a secondary unit, if the unit is one. -/
def owner? (site : Site) (unit : DesignUnit) : Option (Except Diagnostic UnitId) :=
  unit.primaryName?.map (site.resolveOwner unit.kind)

/-- What a unit sees before its own clauses. A secondary unit sees what its primary unit sees. -/
def inherited (site : Site) (owner : Option UnitId) : Visibility :=
  let implicit := Visibility.implicit site.store site.library
  match owner.bind site.store.unit? with
  | some primary => (site.store.linkClauses site implicit primary).2.visibility
  | none => implicit

/-- A context declaration where the standard knows no contexts. -/
def unsupportedContext (site : Site) (unit : DesignUnit) : List Diagnostic :=
  if unit.kind = .context && !site.store.config.standard.supportsContexts then
    [.error site.location
      ("Context declarations require VHDL-2008 or later, the standard is " ++
        site.store.config.standard.render)
      .unsupportedStandard]
  else []

/-- The entity of a configuration, if the unit is one. -/
def configured? (site : Site) (visibility : Visibility) (unit : DesignUnit) :
    Option (Except Diagnostic UnitId) :=
  match unit.body with
  | .configuration entity _ _ => some (site.resolveEntity visibility entity.item)
  | _ => none

end Site

/-- The unit found by an attempt, if any. -/
def attemptUnit? (attempt : Option (Except Diagnostic UnitId)) : Option UnitId :=
  attempt.bind Except.toOption

/-- The diagnostic of an attempt that failed. -/
def attemptDiagnostics : Option (Except Diagnostic UnitId) → List Diagnostic
  | some (.error diagnostic) => [diagnostic]
  | _ => []

namespace Store

def linkUnit (store : Store) (library : Library) (id : UnitId) (unit : DesignUnit) : LinkedUnit :=
  let site : Site := ⟨store, library, store.locationOf id⟩
  let owner := site.owner? unit
  let (linked, state) := store.linkClauses site (site.inherited (attemptUnit? owner)) unit
  let configured := site.configured? state.visibility unit
  let primary := (attemptUnit? owner <|> attemptUnit? configured).map Target.unit
  { id
    unit := { linked with body := linked.body.setPrimary primary }
    visibility := state.visibility
    diagnostics := site.unsupportedContext unit ++ attemptDiagnostics owner ++
      state.diagnostics ++ attemptDiagnostics configured }

/-- The units of a library, linked in the order of their kinds. -/
def linkLibrary (store : Store) (library : Library) : List LinkedUnit :=
  UnitKind.linkOrder.flatMap fun kind =>
    (library.unitsOfKind kind).filterMap fun id =>
      (store.unit? id).map (store.linkUnit library id)

def linkUnits (store : Store) : List LinkedUnit :=
  store.libraries.flatMap store.linkLibrary

/-- Put the linked units in the place of the units. -/
def fillSlots (store : Store) (linked : List LinkedUnit) : Store :=
  { store with
    documents := store.numberedDocuments.map fun (id, document) =>
      { document with
        units := document.units.zipIdx.map fun (unit, index) =>
          match linked.find? (·.id = ⟨id, index⟩) with
          | some linked => linked.unit
          | none => unit.clearTargets } }

end Store

end Vhdl
