/-
# TOML scalars other than strings

A scalar is a run of letters, digits and the characters `+ - . : _`.

| scalar | form |
| --- | --- |
| truth value | `true`, `false` |
| integer | a sign or none and decimal digits without a leading zero; `0x`, `0o`, `0b` and digits |
| float | a decimal integer with a fraction, an exponent or both; `inf` and `nan` |
| date and time | a date, a time of day, or both with an optional offset from UTC |

Digits may be grouped: an underscore stands between two digits.
-/

import Strata.Json.Number
import Strata.Json.Spelling

namespace Strata
namespace Toml

open Text

/-- A character of a scalar. -/
def isScalarChar (c : Char) : Bool :=
  ('a' ≤ c && c ≤ 'z') || ('A' ≤ c && c ≤ 'Z') || isDecimal c || c == '_' || c == '+' || c == '-' ||
    c == '.' || c == ':'

/-- Digits without the underscores between them; none when there is no digit or
an underscore does not stand between two. -/
def ungroup? (isDigit : Char → Bool) (cs : List Char) : Option (List Char) :=
  let groups := splitOn '_' cs
  if groups.all fun g => !g.isEmpty && g.all isDigit then some groups.flatten else none

/-- A sign in front, and the rest. -/
def cutSign : List Char → List Char × List Char
  | '-' :: rest => (['-'], rest)
  | '+' :: rest => ([], rest)
  | cs => ([], cs)

/-- A decimal integer without its underscores: no leading zero before another
digit. -/
def decimalDigits? (cs : List Char) : Option (List Char) :=
  match ungroup? isDecimal cs with
  | some ['0'] => some ['0']
  | some ('0' :: _) => none
  | digits => digits

/-- The largest magnitude of an integer, one more for natural numbers. -/
def maxMagnitude : Nat := 0x80000000000000000000000000000000

/-- An integer that is not too large, by its sign and digits. -/
def boundedInteger? (sign digits : List Char) : Option Json :=
  let n := decimalValue digits
  if (sign = [] ∧ n < 2 * maxMagnitude) ∨ (sign ≠ [] ∧ n ≤ maxMagnitude) then
    some (.number (String.ofList (sign ++ digits)))
  else none

/-- A digit of a base of at most 16. -/
def isDigitOf (base : Nat) (c : Char) : Bool :=
  match Json.hexValue? c with
  | some v => v < base
  | none => false

/-- The value of digits of a base. -/
def valueOf (base : Nat) (cs : List Char) : Nat :=
  cs.foldl (fun n c => base * n + (Json.hexValue? c).getD 0) 0

/-- A natural number in a base other than ten. -/
def basedInteger? (base : Nat) (cs : List Char) : Option Json :=
  match ungroup? (isDigitOf base) cs with
  | some digits =>
    let n := valueOf base digits
    if n < 2 * maxMagnitude then some (.ofNat n) else none
  | none => none

/-- The digits of an exponent with its sign. -/
def exponentDigits? (cs : List Char) : Option (List Char) :=
  let (sign, digits) := cutSign cs
  (ungroup? isDecimal digits).map (sign ++ ·)

/-- A float behind its sign: digits, then a fraction, an exponent or both. -/
def float? (sign cs : List Char) : Option Json := do
  let isExponentMark (c : Char) : Bool := c == 'e' || c == 'E'
  let body := cs.takeWhile fun c => !isExponentMark c
  let exponent ←
    match cs.dropWhile fun c => !isExponentMark c with
    | [] => some []
    | _ :: rest => (exponentDigits? rest).map ('e' :: ·)
  let whole ← decimalDigits? (body.takeWhile (· != '.'))
  let fraction ←
    match body.dropWhile (· != '.') with
    | [] => some []
    | _ :: rest => (ungroup? isDecimal rest).map ('.' :: ·)
  if fraction.isEmpty ∧ exponent.isEmpty then none
  else
    let spelling := String.ofList (sign ++ whole ++ fraction ++ exponent)
    if (Json.number? spelling).isSome then some (.number spelling) else none

/-- The number that a scalar writes. -/
def number? (cs : List Char) : Option Json :=
  match cs with
  | '0' :: 'x' :: rest => basedInteger? 16 rest
  | '0' :: 'o' :: rest => basedInteger? 8 rest
  | '0' :: 'b' :: rest => basedInteger? 2 rest
  | _ =>
    let (sign, rest) := cutSign cs
    if rest = ['i', 'n', 'f'] ∨ rest = ['n', 'a', 'n'] then some (.number (String.ofList rest))
    else
      match decimalDigits? rest with
      | some digits => boundedInteger? sign digits
      | none => float? sign rest

/-- A number of exactly `width` digits between two bounds. -/
def fixed? (width low high : Nat) (cs : List Char) : Option Nat :=
  if cs.length = width then
    (decimal? cs).filter fun n => low ≤ n && n ≤ high
  else none

/-- The days of a month. -/
def daysOf (year month : Nat) : Nat :=
  if month = 2 then
    if year % 4 = 0 ∧ (year % 100 ≠ 0 ∨ year % 400 = 0) then 29 else 28
  else if [4, 6, 9, 11].contains month then 30
  else 31

/-- True for a date `YYYY-MM-DD`. -/
def isDate (cs : List Char) : Bool :=
  match splitOn '-' cs with
  | [y, m, d] =>
    match fixed? 4 0 9999 y, fixed? 2 1 12 m with
    | some year, some month => (fixed? 2 1 (daysOf year month) d).isSome
    | _, _ => false
  | _ => false

/-- True for seconds with an optional fraction. -/
def isSeconds (cs : List Char) : Bool :=
  match splitOn '.' cs with
  | [s] => (fixed? 2 0 60 s).isSome
  | [s, fraction] => (fixed? 2 0 60 s).isSome && (decimal? fraction).isSome
  | _ => false

/-- True for a time of day: hours and minutes, and seconds if they are given. -/
def isTime (cs : List Char) : Bool :=
  match splitOn ':' cs with
  | [h, m] => (fixed? 2 0 23 h).isSome && (fixed? 2 0 59 m).isSome
  | [h, m, s] => (fixed? 2 0 23 h).isSome && (fixed? 2 0 59 m).isSome && isSeconds s
  | _ => false

/-- True for hours and minutes of an offset. -/
def isOffset (cs : List Char) : Bool :=
  match splitOn ':' cs with
  | [h, m] => (fixed? 2 0 23 h).isSome && (fixed? 2 0 59 m).isSome
  | _ => false

/-- True for a time of day with an optional offset from UTC. -/
def isTimeWithOffset (cs : List Char) : Bool :=
  let time := cs.takeWhile fun c => isDecimal c || c == ':' || c == '.'
  isTime time &&
    match cs.drop time.length with
    | [] | ['Z'] | ['z'] => true
    | '+' :: offset | '-' :: offset => isOffset offset
    | _ => false

/-- True for a date, a time of day without an offset, or both. -/
def isMoment (cs : List Char) : Bool :=
  isDate cs || isTime cs ||
    (isDate (cs.take 10) &&
      match cs.drop 10 with
      | 'T' :: time | 't' :: time | ' ' :: time => isTimeWithOffset time
      | _ => false)

/-- The value of a scalar. A moment is an object, so it is read neither as a
text nor as a number. -/
def scalar? (cs : List Char) : Option Json :=
  if cs = ['t', 'r', 'u', 'e'] then some (.bool true)
  else if cs = ['f', 'a', 'l', 's', 'e'] then some (.bool false)
  else if isMoment cs then some (.record [("moment", .ofText (String.ofList cs))])
  else number? cs

end Toml
end Strata
