/-
# Path prefixes

Specification, section 4.6: normal forms of prefixes, and how they match.

A prefix says which paths a correction may touch. Before it is compared, blanks
at its ends are cut, backslashes become slashes, and every `/` and `./` in front
is dropped; a path is treated alike. Slashes at the end are kept, for they
decide how the prefix is matched:

| prefix | matches |
| --- | --- |
| `d/` | every path that begins with `d/` |
| `d` | `d` itself, and every path that begins with `d/` |
| nothing | no path |
-/

import Strata.Text.Basic

namespace Strata
namespace Correction

open Text

/-- Drops every `/` and `./` in front. -/
def dropLead : List Char → List Char
  | '.' :: '/' :: rest => dropLead rest
  | '/' :: rest => dropLead rest
  | cs => cs

/-- The normal form of a prefix or a path, as characters. -/
def normalizeChars (cs : List Char) : List Char := dropLead (forwardSlashes (trimChars cs))

/-- The normal form of a prefix or a path. -/
def normalizePrefix (path : String) : String := String.ofList (normalizeChars path.toList)

/-- The normal forms of some prefixes, each once and no empty one. -/
def normalizePrefixes (prefixes : List String) : List String :=
  ((prefixes.map normalizePrefix).filter (· ≠ "")).eraseDups

/-- True when a path in normal form is matched by a prefix in normal form. -/
def matchesPrefix (path pre : List Char) : Bool :=
  match pre.getLast? with
  | none => false
  | some '/' => pre.isPrefixOf path
  | some _ => path == pre || (pre ++ ['/']).isPrefixOf path

/-- True when a path is matched by a prefix. -/
def pathWithinPrefix (path pre : String) : Bool :=
  matchesPrefix (normalizeChars path.toList) (normalizeChars pre.toList)

end Correction
end Strata
