/-
# From a specifier to a file

Specification, section 4.2: how a specifier is resolved.

A relative specifier names a place as seen from the directory of its importer.
Which files are tried there depends on its extension:

| extension | files |
| --- | --- |
| one a compiler emits: `js`, `jsx`, `mjs`, `cjs` | the name with each source extension instead |
| `ts`, `tsx` | the file itself |
| another | the file itself, then as without extension |
| none | the name with each source extension behind it, then an index file with each |

The first of them that is known is the answer. No directory is looked at.
-/

import Strata.Path

namespace Strata
namespace Import

open Text

/-- The extensions of source files, in the order in which they are tried. -/
def sourceExtensions : List String := ["ts", "tsx", "js", "jsx", "mjs", "cjs"]

/-- The extensions that a compiler emits. -/
def emittedExtensions : List String := ["js", "jsx", "mjs", "cjs"]

/-- Whether a specifier names a place or a package. -/
inductive Kind where
  | relative
  | nonRelative
  deriving Repr, DecidableEq

/-- A relative specifier starts with a dot or two, and then a slash or its
end. -/
def kindOf (specifier : String) : Kind :=
  if specifier = "." ∨ specifier = ".." ∨ startsWith "./" specifier ∨ startsWith "../" specifier
  then .relative
  else .nonRelative

/-- The extension of a specifier, by its last segment. -/
def extensionOf? (specifier : String) : Option String :=
  match (splitOn '/' specifier.toList).getLast? with
  | some last => (Path.mk (String.ofList last)).extension?
  | none => none

/-- The files for a name without extension. -/
def extensionless (base : Path) : List Path :=
  sourceExtensions.map (fun e => base.withSuffix ("." ++ e)) ++
    sourceExtensions.map fun e => base.child ("index." ++ e)

/-- The files that a specifier may mean at a place, in the order in which they
are tried. -/
def candidates (base : Path) (specifier : String) : List Path :=
  match extensionOf? specifier with
  | none => extensionless base
  | some e =>
    if emittedExtensions.contains e then
      sourceExtensions.map fun e => (base.withExtension "").withExtension e
    else if sourceExtensions.contains e then [base]
    else base :: extensionless base

/-- The place that a specifier names, as seen from the directory of its
importer. -/
def baseOf (importer : Path) (specifier : String) : Path :=
  (importer.parent.join ⟨specifier⟩).normalize

/-- The file that a specifier means: the first candidate that is known. -/
def resolve (importer : Path) (specifier : String) (isKnown : Path → Bool) : Option Path :=
  ((candidates (baseOf importer specifier) specifier).map Path.normalize).find? isKnown

end Import
end Strata
