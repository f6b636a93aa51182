/-
# Paths

A path is a text whose parts are separated by slashes. Two readings of it are
used: the text itself, which is shown to the user, and its components, by which
paths are compared.

| text | components |
| --- | --- |
| a leading slash | `root` |
| `..` | `up` |
| `.` at the very front of a relative path | `here` |
| any other `.`, and an empty part | nothing |
| any other part | `name` |

`Path.normalize` folds a path without looking at any directory: every `..`
takes away the part before it, also one that is itself a `..` which nothing
could take away.
-/

import Strata.Text.Basic

namespace Strata

open Text

/-- One step of a path. -/
inductive Component where
  | root
  | here
  | up
  | name (text : String)
  deriving Repr, DecidableEq

/-- The order of the kinds of steps. -/
def Component.rank : Component → Nat
  | .root => 0
  | .here => 1
  | .up => 2
  | .name _ => 3

/-- Steps are ordered by kind, and names by their text. -/
def Component.order : Component → Component → Ordering
  | .name a, .name b => compare a b
  | a, b => compare a.rank b.rank

/-- A path, as it is written. -/
structure Path where
  text : String
  deriving Repr, DecidableEq, Inhabited

namespace Path

/-- The parts of a path between its slashes. -/
def parts (p : Path) : List (List Char) := splitOn '/' p.text.toList

/-- True when the path starts at the root. -/
def isAbsolute (p : Path) : Bool := p.text.toList.head? == some '/'

/-- The step that a part is when it does not stand at the front. -/
def stepOf? (part : List Char) : Option Component :=
  if part = [] ∨ part = ['.'] then none
  else if part = ['.', '.'] then some .up
  else some (.name (String.ofList part))

/-- The steps of a path. -/
def components (p : Path) : List Component :=
  if p.isAbsolute then .root :: p.parts.filterMap stepOf?
  else
    match p.parts with
    | ['.'] :: rest => .here :: rest.filterMap stepOf?
    | parts => parts.filterMap stepOf?

/-- Compares two lists of steps, the shorter one first when it begins the
other. -/
def orderSteps : List Component → List Component → Ordering
  | [], [] => .eq
  | [], _ :: _ => .lt
  | _ :: _, [] => .gt
  | a :: as, b :: bs => (a.order b).then (orderSteps as bs)

/-- Paths are ordered step by step. -/
def order (p q : Path) : Ordering := orderSteps p.components q.components

/-- `q` as seen from `p`: an absolute `q` is itself, another one is written
behind `p`. -/
def join (p q : Path) : Path :=
  if q.isAbsolute then q
  else
    match p.text.toList.getLast? with
    | none | some '/' => ⟨p.text ++ q.text⟩
    | some _ => ⟨p.text ++ "/" ++ q.text⟩

/-- `p` with one more name. -/
def child (p : Path) (name : String) : Path := p.join ⟨name⟩

/-- The text of the steps of a path. -/
def textOfSteps : List Component → List Char
  | .root :: rest => '/' :: joinChars ['/'] (rest.map stepText)
  | steps => joinChars ['/'] (steps.map stepText)
where
  /-- The text of one step behind the front. -/
  stepText : Component → List Char
    | .root => []
    | .here => ['.']
    | .up => ['.', '.']
    | .name text => text.toList

/-- One step behind the folded steps `back`, the latest of which comes first. -/
def foldStep (back : List Component) : Component → List Component
  | .here => back
  | .up =>
    match back with
    | [] => [.up]
    | .root :: outer => .up :: .root :: outer
    | _ :: outer => outer
  | step => step :: back

/-- The steps of a path with `.` dropped and `..` folded. -/
def foldSteps (steps : List Component) : List Component := (steps.foldl foldStep []).reverse

/-- The path with `.` dropped and `..` folded. -/
def normalize (p : Path) : Path := ⟨String.ofList (textOfSteps (foldSteps p.components))⟩

/-- The steps of the directory that a path lies in. -/
def parentSteps (p : Path) : List Component :=
  if p.components = [.root] then [] else p.components.dropLast

/-- The directory that a path lies in; the empty path when there is none. -/
def parent (p : Path) : Path := ⟨String.ofList (textOfSteps p.parentSteps)⟩

/-- The last step, when it is a name. -/
def fileName? (p : Path) : Option String :=
  match p.components.getLast? with
  | some (.name text) => some text
  | _ => none

/-- Cuts a name at its last dot. A name whose only dot is in front has no
extension. -/
def cutExtension (name : List Char) : List Char × Option (List Char) :=
  let tail := (name.reverse.takeWhile (· != '.')).reverse
  let stem := name.take (name.length - tail.length - 1)
  if stem.isEmpty then (name, none) else (stem, some tail)

/-- What stands behind the last dot of the file name. -/
def extension? (p : Path) : Option String :=
  p.fileName?.bind fun name => (cutExtension name.toList).2.map String.ofList

/-- The parts of a path up to its file name, without what follows it. -/
def partsToName (p : Path) : List (List Char) :=
  (p.parts.reverse.dropWhile fun part => part = [] ∨ part = ['.']).reverse

/-- The path with another extension, or without one when `extension` is empty.
A path without a file name stays as it is. -/
def withExtension (p : Path) (extension : String) : Path :=
  match p.fileName?, p.partsToName.getLast? with
  | some _, some name =>
    let stem := (cutExtension name).1
    let name := if extension.isEmpty then stem else stem ++ '.' :: extension.toList
    ⟨String.ofList (joinChars ['/'] (p.partsToName.dropLast ++ [name]))⟩
  | _, _ => p

/-- The path with something written behind it. -/
def withSuffix (p : Path) (suffix : String) : Path := ⟨p.text ++ suffix⟩

/-- Drops parts from the front until `n` of them were steps, and then those
that are none. -/
def dropSteps : (n : Nat) → List (List Char) → List (List Char)
  | _, [] => []
  | n, part :: rest =>
    if (stepOf? part).isNone then dropSteps n rest
    else
      match n with
      | 0 => part :: rest
      | n + 1 => dropSteps n rest

/-- What `p` adds to `base`, as it is written in `p`; none when `p` does not
begin with the steps of `base`. -/
def under? (base p : Path) : Option Path :=
  if base.components.isPrefixOf p.components then
    let named := base.components.filter fun c => c ≠ .root ∧ c ≠ .here
    let parts :=
      if base.components.isEmpty then
        match p.partsToName with
        | [] => if p.isAbsolute then [[], []] else p.parts.take 1
        | parts => parts
      else dropSteps named.length p.partsToName
    some ⟨String.ofList (joinChars ['/'] parts)⟩
  else none

/-- The path below `base`, or the whole path when it does not lie there, with
slashes only. -/
def relativeTo (base p : Path) : String :=
  String.ofList (forwardSlashes ((under? base p).getD p).text.toList)

end Path
end Strata
