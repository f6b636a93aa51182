/-
# Signals in the output of tools

Specification, section 4.5, items 3 and 5: what is read out of raw output.

What compilers, bundlers, test runners and servers print is searched for known
messages.

| signal | message |
| --- | --- |
| a missing module | of the type checker, the bundler, the module loader, or the plain loader |
| a middleware error | a `TypeError` about something that is no function or no middleware |
| a failed migration | a failed migration, an error code `P30..`, a relation that does not exist |
| a failed health check | a health endpoint that failed, timed out or answered with an error |

The messages about a missing module overlap; a module is reported once for each
place where it is named.
-/

import Strata.Text.Pattern

namespace Strata
namespace Signals

open Text Pattern

/-- Every character but a blank. -/
def isVisible : CharSet := fun c => !isBlank c

/-- The name of a missing module, up to the closing quote. -/
def missingName : Pattern := .named "import" (greedyPlus (noneOf "'"))

/-- Digits. -/
def number : Pattern := greedyPlus isDigit

/-- The message of the type checker, which begins with the file and a place in
it. -/
def typeCheckerMessage : Pattern :=
  sequence
    [.at .lineStart, .named "file" (lazyPlus fun c => !isBlank c && noneOf "():" c),
     optional (.either (sequence [.text "(", number, .text ",", number, .text ")"])
       (sequence [.text ":", number, .text ":", number])),
     .greedy isBlank, optional (.one (among ":-")), .greedy isBlank,
     .text "error TS2307: Cannot find module '", missingName, .text "'"]

/-- The message of the bundler, which ends with the directory. -/
def bundlerMessage : Pattern :=
  sequence
    [.text "Module not found: Error: Can't resolve '", missingName, .text "' in '",
     .named "file" (greedyPlus (noneOf "'")), .text "'"]

/-- The message of the module loader, which ends with the importing file. -/
def moduleLoaderMessage : Pattern :=
  sequence
    [.text "Cannot find ", .either (.text "module") (.text "package"), .text " '", missingName,
     .text "' imported from ", .named "file" (greedyPlus isVisible)]

/-- The message of the plain loader, perhaps with the files that led to it. -/
def plainLoaderMessage : Pattern :=
  sequence
    [.text "Error: Cannot find module '", missingName, .text "'",
     optional (sequence
       [.greedy isBlank, .text "\nRequire stack:", .greedy isBlank, .text "\n-", .greedy isBlank,
        .named "file" (greedyPlus isVisible)])]

/-- The messages about missing modules, in the order in which they are looked
for. -/
def missingModuleMessages : List Pattern :=
  [typeCheckerMessage, bundlerMessage, moduleLoaderMessage, plainLoaderMessage]

/-- A module that could not be found, and the file that asked for it. -/
structure MissingModule where
  file : Option String
  specifier : String
  deriving Repr, DecidableEq

/-- A message about a missing module, and the place where the module is
named. -/
structure Sighting where
  position : Nat
  missing : MissingModule
  deriving Repr, DecidableEq

/-- The sightings of one kind of message. -/
def sightingsOf (message : Pattern) (text : List Char) : List Sighting :=
  (message.allIn text).filterMap fun m =>
    (m.part? "import").map fun span =>
      ⟨span.start, ⟨(m.part? "file").map fun f => String.ofList f.text, String.ofList span.text⟩⟩

/-- The sightings without those at a place where an earlier one stands. -/
def firstAtEachPlace (sightings : List Sighting) : List Sighting :=
  (sightings.foldl
    (fun kept s => if kept.any fun k => k.position == s.position then kept else s :: kept)
    []).reverse

/-- The missing modules of a text, in the order in which they are named. -/
def missingModules (text : String) : List MissingModule :=
  let sightings := missingModuleMessages.flatMap fun m => sightingsOf m text.toList
  ((firstAtEachPlace sightings).mergeSort fun a b => a.position ≤ b.position).map Sighting.missing

/-- A call of something that is no function or no middleware. -/
def notAFunction : Pattern :=
  .either
    (sequence [.text "TypeError: ", greedyPlus inLine, .text " is not a function"])
    (sequence
      [.text "TypeError: ", .greedy inLine, .text "requires ", optional (.text "a "),
       .text "middleware function"])

/-- The first line with a middleware error, blanks at its ends cut. -/
def middlewareError? (text : String) : Option String :=
  ((linesOf text.toList).find? fun line => (notAFunction.find? line).isSome).map fun line =>
    String.ofList (trimChars line)

/-- A failed migration. -/
def migrationFailure : Pattern :=
  anyOf
    [sequence
      [.at .wordEdge, textAnyCase "migration", optional (textAnyCase "s"), .at .wordEdge,
       .greedy inLine, .at .wordEdge, .either (textAnyCase "failed") (textAnyCase "error"),
       .at .wordEdge],
     sequence [.at .wordEdge, textAnyCase "p30", .one isDigit, .one isDigit, .at .wordEdge],
     sequence [textAnyCase "relation ", greedyPlus inLine, textAnyCase " does not exist"]]

/-- True when the text tells of a failed migration. -/
def tellsOfMigrationFailure (text : String) : Bool := migrationFailure.occursIn text

/-- A failed health check. -/
def healthFailure : Pattern :=
  sequence
    [.at .wordEdge, textAnyCase "health",
     optional (.either (textAnyCase "check") (textAnyCase "z")), .at .wordEdge,
     .greedy inLine, .at .wordEdge,
     anyOf
       [textAnyCase "failed",
        sequence
          [textAnyCase "time", optional (textAnyCase "d"), optional (.text " "), textAnyCase "out"],
        sequence [textAnyCase "status ", .one (among "45"), .one isDigit, .one isDigit]],
     .at .wordEdge]

/-- True when the text tells of a failed health check. -/
def tellsOfHealthFailure (text : String) : Bool := healthFailure.occursIn text

end Signals
end Strata
