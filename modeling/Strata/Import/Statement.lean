/-
# The imports of a source text

Specification, section 4.2: how specifiers are extracted.

A source imports what its statements name between quotes, once its comments are
gone. Three forms of statement are looked for, each over the whole text:

| form | example |
| --- | --- |
| a clause with `from` | `import x from './x'`, `export * from './x'` |
| an import for its effect | `import './x'` |
| a call | `require('./x')`, `import('./x')` |

A specifier is listed once, where it comes first.
-/

import Strata.Text.Pattern

namespace Strata
namespace Import

open Text Pattern

/-- A comment between `/*` and the next `*/`. -/
def blockComment : Pattern :=
  sequence [.text "/*", .lazy fun _ => true, .text "*/"]

/-- A comment from two slashes to the end of the line, with the character
before them. Slashes behind a colon, a quote or a backslash start none. -/
def lineComment : Pattern :=
  sequence
    [.named "before" (.either (.at .lineStart) (.one (noneOf ":'\"\\"))), .text "//",
     .greedy inLine, .at .lineEnd]

/-- The text of a named part of a match. -/
def partText (name : String) (m : Match) : List Char :=
  match m.part? name with
  | some span => span.text
  | none => []

/-- A source without its comments: a blank for each block, nothing for the rest
of a line. -/
def stripComments (source : List Char) : List Char :=
  lineComment.replaceIn (partText "before") (blockComment.replaceIn (fun _ => [' ']) source)

/-- One of the two quotes. -/
def quote : Pattern := .one (among "'\"")

/-- What stands between the quotes of an import. -/
def specifier : Pattern := .named "specifier" (greedyPlus (noneOf "'\"\n"))

/-- A clause with `from`. -/
def fromClause : Pattern :=
  sequence
    [.at .wordEdge, .either (.text "import") (.text "export"), .one isBlank,
     .lazy (noneOf "'\";"), .at .wordEdge, .text "from", .greedy isBlank, quote, specifier, quote]

/-- An import for its effect. -/
def effectImport : Pattern :=
  sequence [.at .wordEdge, .text "import", .greedy isBlank, quote, specifier, quote]

/-- A call. -/
def callImport : Pattern :=
  sequence
    [.at .wordEdge, .either (.text "require") (.text "import"), .greedy isBlank, .text "(",
     .greedy isBlank, quote, specifier, quote, .greedy isBlank, .text ")"]

/-- The forms of statement that import something. -/
def forms : List Pattern := [fromClause, effectImport, callImport]

/-- A specifier and the place where it stands. -/
structure Mention where
  position : Nat
  specifier : String
  deriving Repr, DecidableEq

/-- The mentions that one form finds. -/
def mentionsOf (form : Pattern) (text : List Char) : List Mention :=
  (form.allIn text).filterMap fun m =>
    (m.part? "specifier").map fun span => ⟨span.start, String.ofList (trimChars span.text)⟩

/-- Mentions are ordered by place, and by specifier at the same place. -/
def Mention.order (a b : Mention) : Ordering :=
  (compare a.position b.position).then (compare a.specifier b.specifier)

/-- The mentions that any form finds in a text without comments, in order. -/
def mentions (text : List Char) : List Mention :=
  (forms.flatMap fun form => mentionsOf form text).mergeSort fun a b => (a.order b).isLE

/-- Mentions that the forms find in order stay as they are. -/
theorem mentions_eq_of_pairwise {text : List Char} {found : List Mention}
    (hfound : (forms.flatMap fun form => mentionsOf form text) = found)
    (hordered : found.Pairwise fun a b => (a.order b).isLE) : mentions text = found := by
  rw [mentions, hfound, List.mergeSort_of_pairwise hordered]

/-- The specifiers of a source, each of them once, in the order in which they
come first. -/
def specifiers (source : String) : List String :=
  ((mentions (stripComments source.toList)).map Mention.specifier).filter (fun s => !s.isEmpty)
    |>.eraseDups

end Import
end Strata
