import Vhdl.CompileOrder
import Vhdl.Hierarchy
import Vhdl.Region

/-! # Analysis

An analysis links all units of a store and derives the dependency graph, the hierarchy, the compile
order and the declarative regions. It depends on nothing that an earlier analysis left behind.
-/

namespace Vhdl

structure Analysis where
  /-- All diagnostics in the order they were found. -/
  diagnostics : List Diagnostic
  dependency : DependencyGraph
  hierarchy : Hierarchy
  compileOrder : CompileOrder
  regions : Table UnitId Region

namespace Analysis

def diagnosticsFor (analysis : Analysis) (unit : UnitId) : List Diagnostic :=
  analysis.diagnostics.filter (·.unit? = some unit)

def hasErrors (analysis : Analysis) : Bool :=
  analysis.diagnostics.any (·.severity = .error)

def unitOf? (analysis : Analysis) (root : Nat) : Option UnitId :=
  (analysis.hierarchy.graph.label? root).bind UnitVertex.unit?

/-- The unit at the top, if it is the only candidate. -/
def topLevelUnit? (analysis : Analysis) : Option UnitId :=
  match analysis.hierarchy.topLevel with
  | .unique root => analysis.unitOf? root
  | .none | .ambiguous _ => none

def selectTopLevel (analysis : Analysis) (name : String) : Except Diagnostic UnitId :=
  match analysis.hierarchy.selectTopLevel name with
  | .error diagnostic => .error diagnostic
  | .ok root =>
    match analysis.unitOf? root with
    | some unit => .ok unit
    | none => .error (.internal .design "Top level vertex without design unit")

/-- A used vertex makes used what it depends on and what implements it. -/
def nextUsed (dependency : DependencyGraph) (id : Nat) : List Nat :=
  dependency.successors id ++ dependency.implementations id

/-- The vertices that are used by some candidate for the top level. -/
def usedVertices (analysis : Analysis) : List Nat :=
  reach (nextUsed analysis.dependency) analysis.dependency.vertexIds
    (analysis.hierarchy.rootKeys.filterMap analysis.dependency.vertexId?)

/-- The units of libraries that are not predefined and that nothing at the top uses. -/
def unusedUnits (analysis : Analysis) : List UnitId :=
  let used := analysis.usedVertices
  analysis.dependency.numbered.filterMap fun (id, _, vertex) =>
    if vertex.predefined || used.contains id then none else vertex.unit?

end Analysis

/-- A diagnostic for each unit of a cycle of dependencies, related to the others. -/
def DependencyGraph.cycleDiagnostics (graph : DependencyGraph) (store : Store) :
    List Diagnostic :=
  graph.cycles.flatMap fun cycle =>
    let units := cycle.filterMap fun id => (graph.label? id).bind UnitVertex.unit?
    units.map fun unit =>
      (units.filter (· ≠ unit)).foldl
        (fun diagnostic other =>
          diagnostic.addRelated (store.locationOf other) "Part of the cycle")
        (Diagnostic.circularDependency (store.locationOf unit))

/-- The declarative region of a unit, for the kinds of units that have one. -/
def DesignUnit.region? (unit : DesignUnit) : Option Region :=
  match unit.kind with
  | .configuration | .context => none
  | _ => some (.of unit.body.decls unit.statements)

namespace Store

def regions (store : Store) : Table UnitId Region where
  entries := (store.units .all).filterMap fun registered =>
    registered.unit.region?.map fun region => (registered.id, region)

/-- The labels that are used again in some region, unit by unit. -/
def repeatedLabels (store : Store) : List String :=
  (store.units .all).flatMap fun registered => ConcStmt.repeatedLabels [] registered.unit.statements

end Store

/-- A store with all slots filled, its analysis, and the log of the work. -/
structure Analyzed where
  store : Store
  analysis : Analysis
  log : List LogRecord

namespace Analysis

/-- What the log says of an analysis of a store whose linking gave `linked` diagnostics. -/
def log (store : Store) (linked : Nat) (analysis : Analysis) : List LogRecord :=
  let count (n : Nat) : String := Nat.repr n
  [.debug ("Analyzing " ++ count store.numUnits ++ " units in " ++ count store.libraries.length ++
      " libraries and " ++ count store.documents.length ++ " documents"),
    .debug ("Linked references with " ++ count linked ++ " diagnostics")] ++
  (analysis.dependency.edgeKeys.map fun (source, target, kind) =>
    .trace (source ++ " -> " ++ target ++ " [" ++ kind.name ++ "]")) ++
  [.debug ("Dependency graph has " ++ count analysis.dependency.numVertices ++
      " vertices and " ++ count analysis.dependency.numEdges ++ " edges"),
    .debug ("Hierarchy graph has " ++ count analysis.hierarchy.graph.numVertices ++
      " vertices, " ++ count analysis.hierarchy.graph.numEdges ++ " edges and " ++
      count analysis.hierarchy.roots.length ++ " roots"),
    .debug ("Compile order graph has " ++ count analysis.compileOrder.graph.numVertices ++
      " documents and " ++ count analysis.compileOrder.graph.numEdges ++ " edges")] ++
  (store.repeatedLabels.map fun label =>
    .debug ("Label '" ++ label ++ "' is used more than once in the same region")) ++
  [.debug ("Indexed the declarative regions of " ++ count analysis.regions.size ++ " units"),
    .debug ("Analysis done with " ++ count analysis.diagnostics.length ++ " diagnostics")]

end Analysis

def Store.analyze (store : Store) : Analyzed :=
  let linked := store.linkUnits
  let filled := store.fillSlots linked
  let visibility (id : UnitId) : Visibility :=
    ((linked.find? (·.id = id)).map LinkedUnit.visibility).getD {}
  let linkDiagnostics := linked.flatMap LinkedUnit.diagnostics
  let dependencies := filled.dependencies visibility
  let hierarchy := Hierarchy.ofDependency dependencies.graph
  let compileOrder := CompileOrder.ofDependency filled dependencies.graph
  let analysis : Analysis :=
    { diagnostics := linkDiagnostics ++ dependencies.diagnostics ++
        dependencies.graph.cycleDiagnostics filled ++ hierarchy.topLevelDiagnostics ++
        compileOrder.cycleDiagnostics filled
      dependency := dependencies.graph
      hierarchy
      compileOrder
      regions := filled.regions }
  { store := filled, analysis, log := analysis.log filled linkDiagnostics.length }

end Vhdl
