/-
# Text cut to a bounded length

Specification, section 2: compact previews and summaries.

A one-line summary collapses blanks to single spaces and cuts after a number of
characters; a bounded list shows its first entries and counts the others.
-/

import Strata.Text.Basic

namespace Strata
namespace Text

/-- The words of the text with one space between neighbours. -/
def collapse (cs : List Char) : List Char := joinChars [' '] (wordsOf cs)

/-- At most `limit` characters, followed by `...` when something was cut. -/
def cutAfter (limit : Nat) (cs : List Char) : List Char :=
  if cs.length ≤ limit then cs else cs.take limit ++ ['.', '.', '.']

/-- **A cut text is at most three characters over its limit.** -/
theorem length_cutAfter_le (limit : Nat) (cs : List Char) :
    (cutAfter limit cs).length ≤ limit + 3 := by
  unfold cutAfter
  split
  · omega
  · rw [List.length_append, List.length_take]
    exact Nat.add_le_add_right (Nat.min_le_left _ _) 3

/-- The text on one line: blanks collapsed, cut after `limit` characters. -/
def compactLine (s : String) (limit : Nat) : String :=
  String.ofList (cutAfter limit (collapse s.toList))

/-- The first `limit` items, rendered and joined, with a count of the others. -/
def joinBounded (sep : String) (render : String → String) (items : List String)
    (limit : Nat) : String :=
  let shown := join sep ((items.take limit).map render)
  if items.length ≤ limit then shown else s!"{shown} (+{items.length - limit} more)"

/-- Several messages on one line, each of them cut after `width` characters. -/
def previewMessages (messages : List String) (limit width : Nat) : String :=
  joinBounded " | " (compactLine · width) messages limit

/-- Names inside a message. -/
def boundedList (items : List String) (limit : Nat) : String := joinBounded ", " id items limit

end Text
end Strata
