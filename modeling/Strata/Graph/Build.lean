/-
# Building the import graph

Specification, section 4.3: the graph builder.

The files below the source root are the candidates for nodes; the files below
the project root are what relative imports may mean. A project without a source
root has the empty graph.

A component is reported as a cycle when it has two members or an edge to
itself: once among the cycles of the graph and once as a violation.
-/

import Std.Data.TreeMap
import Std.Data.TreeSet
import Strata.Graph.Import
import Strata.Graph.Cycle
import Strata.Text.Ordered
import Strata.ProjectError

namespace Strata
namespace Graph

open Text

/-- The violation of a compiler configuration that declares aliases. -/
def aliasConfigViolation? (c : AliasConfig) : Option Violation :=
  if c.declaresAliases then
    let baseUrl := c.baseUrl.getD "-"
    let aliases := join ", " c.aliases
    some <| .error .pathAliasConfig c.file
      ("Compiler config declares path aliases or a non-default baseUrl " ++
        s!"(baseUrl={baseUrl}, paths=[{aliases}]); imports must stay relative")
      none
  else none

/-- A set of normalized paths. -/
def knownPaths (found : List FoundFile) : Std.TreeSet String :=
  .ofList (found.map fun f => f.path.normalize.text)

/-- The numbers of the nodes by their normalized paths. -/
def numbering (sources : List SourceFile) : Std.TreeMap String Nat :=
  .ofList (sources.zipIdx.map fun s => (s.1.path.normalize.text, s.2))

/-- All imports of all nodes. -/
def recordsOf (w : Surroundings) (sources : List SourceFile) : List ImportRecord :=
  sources.zipIdx.flatMap fun s => w.importsOf s.2 s.1

/-- True for a component that holds a cycle. -/
def isCyclic (g : Adjacency) (component : List Nat) : Bool :=
  match component with
  | [] => false
  | [v] => (successors g v).contains v
  | _ :: _ :: _ => true

/-- The member with the smallest name, the first of several. -/
def smallestBy (name : Nat → String) : Nat → List Nat → Nat
  | v, [] => v
  | v, w :: rest => smallestBy name (if name w < name v then w else v) rest

/-- The successors of a member in its component, in the order of their names. -/
def innerSuccessors (g : Adjacency) (name : Nat → String) (component : List Nat) (v : Nat) :
    List Nat :=
  ((successors g v).filter component.contains).mergeSort fun a b =>
    (compare (name a) (name b)).isLE

/-- The closed walk that shows a component, from the member with the smallest
name. -/
def walkOf (g : Adjacency) (name : Nat → String) (component : List Nat) : List Nat :=
  match component with
  | [] => []
  | v :: rest =>
    closedWalk (innerSuccessors g name component) component.length (smallestBy name v rest)

/-- The cycle of a component. -/
def cycleOf (g : Adjacency) (name : Nat → String) (component : List Nat) : Cycle :=
  let path := (walkOf g name component).map name
  let missed := (component.map name).filter fun n => !path.contains n
  ⟨path, missed.mergeSort fun a b => (compare a b).isLE⟩

/-- Cycles are ordered by their paths, and then by the members beside them. -/
def Cycle.order (a b : Cycle) : Ordering :=
  (orderTexts a.path b.path).then (orderTexts a.others b.others)

/-- The cycles of a graph, in order. -/
def cyclesOf (g : Adjacency) (name : Nat → String) : List Cycle :=
  (((components g).filter (isCyclic g)).map (cycleOf g name)).mergeSort fun a b => (a.order b).isLE

/-- The violation of a cycle. -/
def Cycle.violation (c : Cycle) : Violation :=
  let shown := join " -> " c.path
  let beside :=
    if c.others.isEmpty then "" else " (component also includes " ++ join ", " c.others ++ ")"
  .error .cycle (c.path.headD "") ("Dependency cycle detected: " ++ shown ++ beside) (some shown)

/-- What the imports of a project depend on: the files below its source root,
the files below its root, its compiler configurations and its nodes. -/
def surroundingsOf (c : Contract) (root : Path) (below all : List FoundFile)
    (configs : List AliasConfig) (sources : List SourceFile) : Surroundings :=
  let known := knownPaths all
  let numbers := numbering sources
  { contract := c
    names :=
      { sourceRoot := c.sourceRoot
        aliases := configs.flatMap AliasConfig.aliases
        sourceDirectories := sourceDirectories (c.sourceDirectory root) below }
    isKnown := fun p => known.contains p.text
    numberOf? := fun p => numbers.get? p.text }

/-- The graph of some nodes and their imports. -/
def ofRecords (c : Contract) (configs : List AliasConfig) (nodes : Array Node)
    (records : List ImportRecord) : ImportGraph :=
  let graph : ImportGraph := ⟨nodes, records.filterMap ImportRecord.edge?, [], []⟩
  let cycles := cyclesOf graph.adjacency graph.nameOf
  { graph with
    cycles := cycles.map Cycle.path
    violations := Violation.sort <|
      configs.filterMap aliasConfigViolation? ++
        nodes.toList.filterMap unknownLayerViolation? ++
        records.flatMap (ImportRecord.violations c nodes) ++
        cycles.map Cycle.violation }

/-- The graph of a project, from the files below its source root, the files
below its root and its compiler configurations. -/
def assemble (c : Contract) (root : Path) (below all : List FoundFile)
    (configs : List AliasConfig) : ImportGraph :=
  let sources := selectProduction root (sortByPath below)
  let surroundings := surroundingsOf c root below all configs sources
  ofRecords c configs (sources.map (Node.ofSource c)).toArray (recordsOf surroundings sources)

end Graph

/-- The import graph of a project. -/
def ImportGraph.build (files : Files) (root : Path) (c : Contract) :
    Except IoError ImportGraph := do
  if files.isDirectory (c.sourceDirectory root) then
    let below ← files.walk (c.sourceDirectory root)
    let all ← files.walk root
    let configs ← Graph.AliasConfig.readAll files root
    return Graph.assemble c root below all configs
  else return .empty

end Strata
