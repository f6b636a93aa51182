/-
# Cycles as closed walks

Specification, section 4.3: how a cycle is rendered.

A component that holds a cycle is shown as one closed walk. The walk starts at
a given member and goes on to the first successor that it has not visited, for
as long as there is one. Where it ends it closes with an edge to the start; if
there is none, with a shortest path back. Members that the walk misses are
listed beside it.

The successors of a member are given in the order in which they are tried.
-/

import Strata.Graph.Component

namespace Strata
namespace Graph

/-- Where a search came from: each node that it found with the node whose
successor it is, the latest first. -/
abbrev Origins := List (Nat × Nat)

/-- The nodes from `v` back to the source of a search, the source left out. None
when a node on the way has no origin or when there are more than `fuel` nodes. -/
def retrace (origins : Origins) (source : Nat) : (fuel : Nat) → (v : Nat) → Option (List Nat)
  | 0, v => if v = source then some [] else none
  | fuel + 1, v =>
    if v = source then some []
    else
      match origins.lookup v with
      | some u => (retrace origins source fuel u).map (v :: ·)
      | none => none

/-- The successors of `v` that a search finds: those that are not its source and
were not found before, each of them once. -/
def discoveries (next : Nat → List Nat) (source : Nat) (origins : Origins) (v : Nat) : List Nat :=
  ((next v).filter fun w => w != source && (origins.lookup w).isNone).eraseDups

/-- A shortest path to `target`, without the source it starts at. The nodes of
the queue are looked at one after the other, and what they find is queued behind
them. None when the queue ends, or `fuel` does, before `target` is met. -/
def searchBack? (next : Nat → List Nat) (source target : Nat) :
    (fuel : Nat) → (queue : List Nat) → (origins : Origins) → Option (List Nat)
  | 0, _, _ => none
  | _ + 1, [], _ => none
  | fuel + 1, v :: queue, origins =>
    if (next v).contains target then
      (retrace origins source origins.length v).map fun back => (target :: back).reverse
    else
      let found := discoveries next source origins v
      searchBack? next source target fuel (queue ++ found)
        ((found.map fun w => (w, v)).reverse ++ origins)

/-- A shortest path from one member to another, without the first, if there is
one. There are `size` members. -/
def pathBack? (next : Nat → List Nat) (size source target : Nat) : Option (List Nat) :=
  searchBack? next source target size [source] []

/-- A shortest path from one member to another, without the first; the other
member alone when there is no path. -/
def pathBack (next : Nat → List Nat) (size source target : Nat) : List Nat :=
  (pathBack? next size source target).getD [target]

/-- Goes on from a walk, which is given with its latest node first, until it
closes. -/
def wander (next : Nat → List Nat) (size start : Nat) :
    (fuel : Nat) → (current : Nat) → (earlier : List Nat) → List Nat
  | 0, current, earlier => (current :: earlier).reverse ++ pathBack next size current start
  | fuel + 1, current, earlier =>
    match (next current).find? fun w => !(current :: earlier).contains w with
    | some w => wander next size start fuel w (current :: earlier)
    | none =>
      if (next current).contains start then (start :: current :: earlier).reverse
      else (current :: earlier).reverse ++ pathBack next size current start

/-- A closed walk from `start` through a component with `size` members. -/
def closedWalk (next : Nat → List Nat) (size start : Nat) : List Nat :=
  wander next size start size start []

/-- `IsWalk next xs` holds when each node of `xs` is a successor of the node
before it. -/
def IsWalk (next : Nat → List Nat) : List Nat → Prop
  | [] | [_] => True
  | v :: w :: rest => w ∈ next v ∧ IsWalk next (w :: rest)

end Graph
end Strata
