/-
# Text patterns

A pattern describes where text may be matched and in which order the ways to
match it are tried. The first way that lets everything after it match too is
the match: an alternative on the left goes before one on the right, a greedy
run tries its longest stretch first, a lazy run its shortest.

| pattern | matches |
| --- | --- |
| `empty` | nothing, at once |
| `one set` | one character of `set` |
| `greedy set`, `lazy set` | any number of characters of `set` |
| `at place` | nothing, when the cursor stands at `place` |
| `seq p q`, `either p q` | `p` and then `q`; `p`, or else `q` |
| `named name p` | `p`, and remembers what it matched |

A repeated pattern is always a single set of characters, so a match is found
by recursion on the pattern, with what has to follow passed along as a
function (`matchThen`).
-/

import Strata.Text.Word
import Strata.Text.Basic

namespace Strata
namespace Text

/-- A set of characters. -/
abbrev CharSet := Char → Bool

/-- A place in a text: the character before it, the characters after it and
its distance from the start. -/
structure Cursor where
  before : Option Char
  rest : List Char
  position : Nat
  deriving Repr, DecidableEq

/-- The start of a text. -/
def Cursor.start (cs : List Char) : Cursor := ⟨none, cs, 0⟩

/-- A condition on a place that consumes nothing. -/
inductive Place where
  /-- the start of the text -/
  | textStart
  /-- the start of a line: of the text, or after a line feed -/
  | lineStart
  /-- the end of a line: of the text, or before a line feed -/
  | lineEnd
  /-- between a word character and something else -/
  | wordEdge
  deriving Repr, DecidableEq

/-- Whether a cursor stands at such a place. -/
def Place.holds : Place → Cursor → Bool
  | .textStart, c => c.before.isNone
  | .lineStart, c => c.before.all (· == '\n')
  | .lineEnd, c => c.rest.head?.all (· == '\n')
  | .wordEdge, c => c.before.any isWord != c.rest.head?.any isWord

/-- A pattern over characters. -/
inductive Pattern where
  | empty
  | one (set : CharSet)
  | greedy (set : CharSet)
  | lazy (set : CharSet)
  | at (place : Place)
  | seq (p q : Pattern)
  | either (p q : Pattern)
  | named (name : String) (p : Pattern)

/-- A stretch of text: where it begins and what it says. -/
structure Span where
  start : Nat
  text : List Char
  deriving Repr, DecidableEq

/-- The text between two cursors of the same text. -/
def Cursor.spanTo (a b : Cursor) : Span := ⟨a.position, a.rest.take (b.position - a.position)⟩

/-- What the named parts of a pattern matched, the latest first. -/
abbrev Captures := List (String × Span)

/-- The cursors that are reached by consuming characters of `set`, the farthest
first, in front of `nearer`. -/
def reachFrom (set : CharSet) : List Cursor → Option Char → List Char → Nat → List Cursor
  | nearer, before, [], n => ⟨before, [], n⟩ :: nearer
  | nearer, before, x :: rest, n =>
    if set x then reachFrom set (⟨before, x :: rest, n⟩ :: nearer) (some x) rest (n + 1)
    else ⟨before, x :: rest, n⟩ :: nearer

/-- The cursors that are reached by consuming characters of `set`, the farthest
first. -/
def Cursor.reach (set : CharSet) (c : Cursor) : List Cursor :=
  reachFrom set [] c.before c.rest c.position

/-- The first answer of `k` at one of the cursors that are reached by consuming
characters of `set`, the nearest first. -/
def nearestFrom {α : Type} (set : CharSet) (k : Cursor → Option α) :
    Option Char → List Char → Nat → Option α
  | before, [], n => k ⟨before, [], n⟩
  | before, x :: rest, n =>
    match k ⟨before, x :: rest, n⟩ with
    | some a => some a
    | none => if set x then nearestFrom set k (some x) rest (n + 1) else none

/-- Matches the pattern at a cursor in every way, in order of preference, until
`k` accepts the cursor behind it. -/
def Pattern.matchThen {α : Type} :
    Pattern → (Cursor → Captures → Option α) → Cursor → Captures → Option α
  | .empty, k, c, caps => k c caps
  | .one set, k, c, caps =>
    match c.rest with
    | [] => none
    | x :: rest => if set x then k ⟨some x, rest, c.position + 1⟩ caps else none
  | .greedy set, k, c, caps => (c.reach set).findSome? fun d => k d caps
  | .lazy set, k, c, caps => nearestFrom set (fun d => k d caps) c.before c.rest c.position
  | .at place, k, c, caps => if place.holds c then k c caps else none
  | .seq p q, k, c, caps => p.matchThen (q.matchThen k) c caps
  | .either p q, k, c, caps =>
    match p.matchThen k c caps with
    | some a => some a
    | none => q.matchThen k c caps
  | .named name p, k, c, caps => p.matchThen (fun d caps => k d ((name, c.spanTo d) :: caps)) c caps

/-- A match: the text it covers and what its named parts matched. -/
structure Match where
  whole : Span
  captures : Captures
  deriving Repr, DecidableEq

/-- What the part of this name matched, if it took part in the match. -/
def Match.part? (m : Match) (name : String) : Option Span := m.captures.lookup name

/-- The preferred match that begins at the cursor. -/
def Pattern.matchAt? (p : Pattern) (c : Cursor) : Option Match :=
  p.matchThen (fun d caps => some ⟨c.spanTo d, caps⟩) c []

/-- The leftmost match at or behind a place. -/
def Pattern.findFrom? (p : Pattern) : Option Char → List Char → Nat → Option Match
  | before, [], n => p.matchAt? ⟨before, [], n⟩
  | before, x :: rest, n =>
    match p.matchAt? ⟨before, x :: rest, n⟩ with
    | some m => some m
    | none => p.findFrom? (some x) rest (n + 1)

/-- The leftmost match in a text. -/
def Pattern.find? (p : Pattern) (cs : List Char) : Option Match := p.findFrom? none cs 0

/-- True when the pattern matches somewhere in the text. -/
def Pattern.occursIn (p : Pattern) (s : String) : Bool := (p.find? s.toList).isSome

/-- The matches behind a place from left to right, none of them overlapping:
the next `skip` characters belong to the match before. -/
def Pattern.matchesFrom (p : Pattern) : (skip : Nat) → Option Char → List Char → Nat → List Match
  | 0, before, [], n => (p.matchAt? ⟨before, [], n⟩).toList
  | _ + 1, _, [], _ => []
  | skip + 1, _, x :: rest, n => p.matchesFrom skip (some x) rest (n + 1)
  | 0, before, x :: rest, n =>
    match p.matchAt? ⟨before, x :: rest, n⟩ with
    | some m => m :: p.matchesFrom (m.whole.text.length - 1) (some x) rest (n + 1)
    | none => p.matchesFrom 0 (some x) rest (n + 1)

/-- All matches in a text from left to right, none of them overlapping. -/
def Pattern.allIn (p : Pattern) (cs : List Char) : List Match := p.matchesFrom 0 none cs 0

/-- Writes a text with its matches replaced: `written` holds what was written
so far, last character first, and the next `skip` characters belong to the
match before. -/
def Pattern.replaceFrom (p : Pattern) (replace : Match → List Char) :
    (written : List Char) → (skip : Nat) → Option Char → List Char → Nat → List Char
  | written, _, _, [], _ => written
  | written, skip + 1, _, x :: rest, n =>
    p.replaceFrom replace written skip (some x) rest (n + 1)
  | written, 0, before, x :: rest, n =>
    match p.matchAt? ⟨before, x :: rest, n⟩ with
    | some m =>
      p.replaceFrom replace ((replace m).reverse ++ written) (m.whole.text.length - 1) (some x)
        rest (n + 1)
    | none => p.replaceFrom replace (x :: written) 0 (some x) rest (n + 1)

/-- The text with every match of a pattern that matches no empty text replaced. -/
def Pattern.replaceIn (p : Pattern) (replace : Match → List Char) (cs : List Char) : List Char :=
  (p.replaceFrom replace [] 0 none cs 0).reverse

/-! ### Building patterns -/

namespace Pattern

/-- The patterns one after the other. -/
def sequence : List Pattern → Pattern
  | [] => .empty
  | [p] => p
  | p :: q :: rest => .seq p (sequence (q :: rest))

/-- The first of the patterns that lets the rest match. -/
def anyOf : List Pattern → Pattern
  | [] => .one fun _ => false
  | [p] => p
  | p :: q :: rest => .either p (anyOf (q :: rest))

/-- The pattern, or nothing. -/
def optional (p : Pattern) : Pattern := .either p .empty

/-- Exactly `n` characters of a set. -/
def times (set : CharSet) : Nat → Pattern
  | 0 => .empty
  | n + 1 => .seq (.one set) (times set n)

/-- One or more characters of a set, as many as possible. -/
def greedyPlus (set : CharSet) : Pattern := .seq (.one set) (.greedy set)

/-- One or more characters of a set, as few as possible. -/
def lazyPlus (set : CharSet) : Pattern := .seq (.one set) (.lazy set)

/-- Exactly this text. -/
def text (s : String) : Pattern := sequence (s.toList.map fun x => .one (· == x))

/-- The given characters. -/
def among (s : String) : CharSet := fun c => s.toList.contains c

/-- All characters but the given ones. -/
def noneOf (s : String) : CharSet := fun c => !s.toList.contains c

/-- Every character but the line feed. -/
def inLine : CharSet := fun c => c != '\n'

/-- Equality up to case for an ASCII letter in lower case. Besides its capital,
`k` is written by the Kelvin sign and `s` by the long s. -/
def sameLetter (letter : Char) : CharSet := fun c =>
  c == letter || c == letter.toUpper || (letter == 'k' && c == '\u212a') ||
    (letter == 's' && c == '\u017f')

/-- This text in letters of either case. -/
def textAnyCase (s : String) : Pattern := sequence (s.toList.map fun x => .one (sameLetter x))

end Pattern

end Text
end Strata
