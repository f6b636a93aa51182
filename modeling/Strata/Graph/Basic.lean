/-
# The import graph

Specification, section 3, `GraphNode` and `GraphEdge`.

A node is a file of production code, an edge an import of one node by another.
Nodes are numbered in the order of their relative paths.
-/

import Strata.Layer
import Strata.Source
import Strata.Violation
import Strata.Graph.Component

namespace Strata
namespace Graph

/-- A file of production code and where it lies. -/
structure Node where
  id : Path
  relativePath : String
  place : PathClass
  deriving Repr, DecidableEq

/-- The node of a file. -/
def Node.ofSource (c : Contract) (s : SourceFile) : Node :=
  ⟨s.path, s.relativePath, c.classify s.relativePath⟩

/-- An import: the number of the importer, the number of what it imports, and
how it says so. -/
structure Edge where
  source : Nat
  target : Nat
  specifier : String
  deriving Repr, DecidableEq

/-- Puts a number where it belongs in an increasing list. -/
def insertNumber (n : Nat) : List Nat → List Nat
  | [] => [n]
  | m :: rest =>
    if n < m then n :: m :: rest else if n = m then m :: rest else m :: insertNumber n rest

/-- The successors of each of `size` nodes in increasing order. -/
def adjacencyOf (size : Nat) (edges : List Edge) : Adjacency :=
  edges.foldl (fun g e => g.modify e.source (insertNumber e.target)) (Array.replicate size [])

/-- A cycle: a closed walk through its component, and the members that the walk
misses, by their relative paths. -/
structure Cycle where
  path : List String
  others : List String
  deriving Repr, DecidableEq

/-- How many nodes, edges and cycles a graph has. -/
structure Summary where
  nodes : Nat
  edges : Nat
  cycles : Nat
  deriving Repr, DecidableEq

/-- The document of a summary. -/
def Summary.toJson (s : Summary) : Json :=
  .record [("nodes", .ofNat s.nodes), ("edges", .ofNat s.edges), ("cycles", .ofNat s.cycles)]

end Graph

/-- The imports of a project and what is wrong with them. -/
structure ImportGraph where
  nodes : Array Graph.Node
  edges : List Graph.Edge
  cycles : List (List String)
  violations : List Violation
  deriving Repr, DecidableEq

namespace ImportGraph

/-- The graph without nodes. -/
def empty : ImportGraph := ⟨#[], [], [], []⟩

/-- How many nodes, edges and cycles the graph has. -/
def summary (g : ImportGraph) : Graph.Summary := ⟨g.nodes.size, g.edges.length, g.cycles.length⟩

/-- The successors of each node. -/
def adjacency (g : ImportGraph) : Graph.Adjacency := Graph.adjacencyOf g.nodes.size g.edges

/-- The relative path of a node, by its number. -/
def nameOf (g : ImportGraph) (v : Nat) : String := (g.nodes[v]?.map Graph.Node.relativePath).getD ""

/-- The document of a node. -/
def nodeToJson (n : Graph.Node) : Json :=
  .record <|
    [("id", .ofText n.id.text), ("relativePath", .ofText n.relativePath),
     ("moduleName", .ofOption .ofText n.place.module?),
     ("layer", .ofOption .ofText n.place.layer?)] ++
      n.place.unknownLayer?.toList.map fun u => ("unknownLayer", .ofText u)

/-- The document of an edge, with its ends by their relative paths. -/
def edgeToJson (g : ImportGraph) (e : Graph.Edge) : Json :=
  .record
    [("from", .ofText (g.nameOf e.source)), ("to", .ofText (g.nameOf e.target)),
     ("importSpecifier", .ofText e.specifier)]

/-- The document of a graph. -/
def toJson (g : ImportGraph) : Json :=
  .record
    [("nodes", .array (g.nodes.toList.map nodeToJson)),
     ("edges", .array (g.edges.map g.edgeToJson)),
     ("cycles", .array (g.cycles.map Json.ofTexts)),
     ("violations", .array (g.violations.map Violation.toJson))]

end ImportGraph

end Strata
