/-
# JSON numbers

A number that a document keeps is one of three kinds, by its spelling and its
size:

| kind | spelling |
| --- | --- |
| `natural` | digits only, below `2 ^ 64` |
| `negative` | a minus sign and digits, from `-2 ^ 63` to `-1` |
| `float` | everything else, also `-0` and integers that are too large |

A float is read from at most 64 bits of its digits, scaled by one correctly
rounded power of ten; one that is too large is refused. It is written with the
fewest digits that read back: positional while the point stands at most 16
places behind and 4 places before the first digit, with an exponent otherwise.
-/

import Strata.Json.Basic
import Strata.Text.Basic
import Strata.Decimal.Shortest

namespace Strata
namespace Json

/-- The parts of the spelling of a number. -/
structure Numeral where
  isNegative : Bool
  whole : List Char
  /-- the digits behind the point, if there is one -/
  fraction : Option (List Char)
  /-- the sign and the digits of the exponent, if there is one -/
  exponent : Option (Bool × List Char)
  deriving Repr, DecidableEq

/-- Reads the part of a spelling behind the `e`. -/
def Numeral.exponentOf : List Char → Option (Bool × List Char)
  | 'e' :: '-' :: digits | 'E' :: '-' :: digits => some (true, digits)
  | 'e' :: '+' :: digits | 'E' :: '+' :: digits => some (false, digits)
  | 'e' :: digits | 'E' :: digits => some (false, digits)
  | _ => none

/-- Takes the spelling of a number apart. -/
def Numeral.ofSpelling (spelling : String) : Numeral :=
  let (isNegative, unsigned) :=
    match spelling.toList with
    | '-' :: rest => (true, rest)
    | rest => (false, rest)
  let whole := unsigned.takeWhile Text.isDecimal
  match unsigned.dropWhile Text.isDecimal with
  | '.' :: rest =>
    ⟨isNegative, whole, some (rest.takeWhile Text.isDecimal),
      exponentOf (rest.dropWhile Text.isDecimal)⟩
  | rest => ⟨isNegative, whole, none, exponentOf rest⟩

/-- A number that a document keeps. -/
inductive Number where
  | natural (n : Nat)
  | negative (n : Int)
  | float (x : Float)

/-- The largest 64-bit natural number. -/
def maxNatural : Nat := 0xffffffffffffffff

/-- What a 64-bit integer has to be smaller than; its opposite is the smallest
of them. -/
def integerBound : Nat := 0x8000000000000000

/-- The digits that a significand takes: the number they write, and how many
were taken. A digit that would carry it past 64 bits ends the taking. -/
def takeDigits : (significand : Nat) → (taken : Nat) → List Char → Nat × Nat
  | significand, taken, [] => (significand, taken)
  | significand, taken, c :: rest =>
    let next := 10 * significand + (c.toNat - '0'.toNat)
    if next ≤ maxNatural then takeDigits next (taken + 1) rest else (significand, taken)

/-- `10 ^ n` as a correctly rounded float. -/
def floatPower (n : Nat) : Float := Float.ofScientific 1 false n

/-- `x · 10 ^ exponent`: a power beyond `10 ^ 308` is divided out in steps of
`10 ^ 308`. None when the result is too large. -/
def scaleBy : (fuel : Nat) → (x : Float) → (exponent : Int) → Option Float
  | 0, _, _ => some 0
  | fuel + 1, x, exponent =>
    if exponent.natAbs ≤ 308 then
      if 0 ≤ exponent then
        let y := x * floatPower exponent.natAbs
        if y.isInf then none else some y
      else some (x / floatPower exponent.natAbs)
    else if x == 0 then some x
    else if 0 ≤ exponent then none
    else scaleBy fuel (x / floatPower 308) (exponent + 308)

/-- The largest magnitude of an exponent. -/
def maxExponent : Nat := 0x7fffffff

/-- The float that a numeral writes, without its sign. -/
def Numeral.magnitude? (n : Numeral) : Option Float :=
  let (significand, taken) := takeDigits 0 0 n.whole
  let surplus : Int := Int.ofNat (n.whole.length - taken)
  let (significand, places) := takeDigits significand 0 (n.fraction.getD [])
  let scale := surplus - Int.ofNat places
  match n.exponent with
  | none => scaleBy 10 (Float.ofNat significand) scale
  | some (isDown, digits) =>
    let e := Text.decimalValue digits
    if maxExponent < e then
      if significand ≠ 0 ∧ ¬ isDown then none else some 0
    else scaleBy 10 (Float.ofNat significand) (if isDown then scale - e else scale + e)

/-- The number that a spelling keeps; none when it is a float that is too
large. -/
def number? (spelling : String) : Option Number :=
  let n := Numeral.ofSpelling spelling
  let value := Text.decimalValue n.whole
  if n.fraction.isNone ∧ n.exponent.isNone ∧ ¬ n.isNegative ∧ value ≤ maxNatural then
    some (.natural value)
  else if n.fraction.isNone ∧ n.exponent.isNone ∧ n.isNegative ∧ value ≠ 0 ∧
      value ≤ integerBound then
    some (.negative (-Int.ofNat value))
  else
    n.magnitude?.map fun x => .float (if n.isNegative then -x else x)

/-- Digits and a decimal exponent as text. -/
def scaledText (s : Decimal.Scaled) : String :=
  let digits := Nat.toDigits 10 s.digits
  let point := Int.ofNat digits.length + s.exponent
  let zeros (n : Int) : List Char := List.replicate n.toNat '0'
  String.ofList <|
    if 0 ≤ s.exponent ∧ point ≤ 16 then digits ++ zeros s.exponent ++ ['.', '0']
    else if 0 < point ∧ point ≤ 16 then digits.take point.toNat ++ '.' :: digits.drop point.toNat
    else if -5 < point ∧ point ≤ 0 then '0' :: '.' :: zeros (-point) ++ digits
    else
      let mantissa := if digits.length = 1 then digits else digits.take 1 ++ '.' :: digits.drop 1
      mantissa ++ 'e' :: (toString (point - 1)).toList

/-- A finite float as text. -/
def floatText (x : Float) : String :=
  let sign := if 0x8000000000000000 ≤ x.toBits.toNat then "-" else ""
  if x == 0 then sign ++ "0.0"
  else
    match (Decimal.Binary.ofBits x.toBits).shortest? with
    | some s => sign ++ scaledText s
    | none => sign ++ "0.0"

/-- The spelling of a number that a document keeps. -/
def Number.spelling : Number → String
  | .natural n => toString n
  | .negative n => toString n
  | .float x => floatText x

/-- The 64-bit natural number of a document. -/
def natural? : Json → Option UInt64
  | number spelling =>
    match number? spelling with
    | some (.natural n) => some (UInt64.ofNat n)
    | _ => none
  | _ => none

/-- The 64-bit integer of a document. -/
def integer? : Json → Option Int64
  | number spelling =>
    match number? spelling with
    | some (.natural n) => if n < integerBound then some (Int64.ofInt n) else none
    | some (.negative n) => some (Int64.ofInt n)
    | _ => none
  | _ => none

/-- The truth value of a document. -/
def truth? : Json → Option Bool
  | bool b => some b
  | _ => none

end Json
end Strata
