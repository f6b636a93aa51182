/-
# The fewest digits that read back

A finite binary64 number other than zero is `mantissa · 2 ^ exponent`. The
decimals that round to it form an interval around it, whose ends belong to it
when the mantissa is even. On the grid of the multiples of `10 ^ k` the two
neighbours of the number are the only candidates; the coarsest grid on which
one of them lies in the interval gives the fewest digits, and of two hits the
nearer is taken, the even one when both are equally near.
-/

namespace Strata
namespace Decimal

/-- A positive binary number: `mantissa · 2 ^ exponent`. The gap below it is
half as wide as the gap above it when `isBoundary` holds. -/
structure Binary where
  mantissa : Nat
  exponent : Int
  isBoundary : Bool
  deriving Repr, DecidableEq

/-- The leading bit of the mantissa of a normal number, which is not written:
the 52 bits behind it are. -/
def hiddenBit : Nat := 0x10000000000000

/-- The absolute value of a finite binary64 number from its bits. -/
def Binary.ofBits (bits : UInt64) : Binary :=
  let fraction := bits.toNat % hiddenBit
  let biased := bits.toNat / hiddenBit % 2048
  if biased = 0 then ⟨fraction, -1074, false⟩
  else ⟨fraction + hiddenBit, Int.ofNat biased - 1075, fraction == 0 && biased != 1⟩

/-- A decimal number: `digits · 10 ^ exponent`. -/
structure Scaled where
  digits : Nat
  exponent : Int
  deriving Repr, DecidableEq

/-- The power `base ^ n`, one when `n` is negative. -/
def power (base : Nat) (n : Int) : Nat := base.pow n.toNat

/-- The multiple of `10 ^ k` that lies in the rounding interval of `b` and is
nearest to it. All quantities are compared in quarters of a unit of the last
binary place. -/
def Binary.onGrid? (b : Binary) (k : Int) : Option Nat :=
  let grid := power 10 k * power 2 (2 - b.exponent)
  let quarter := power 10 (-k) * power 2 (b.exponent - 2)
  let value := 4 * b.mantissa * quarter
  let low := (4 * b.mantissa - if b.isBoundary then 1 else 2) * quarter
  let high := (4 * b.mantissa + 2) * quarter
  let inside (d : Nat) : Bool :=
    if b.mantissa % 2 = 0 then low ≤ d * grid && d * grid ≤ high
    else low < d * grid && d * grid < high
  let below := value / grid
  let above := below + 1
  match inside below, inside above with
  | false, false => none
  | true, false => some below
  | false, true => some above
  | true, true =>
    let down := value - below * grid
    let up := above * grid - value
    if down < up ∨ (down = up ∧ below % 2 = 0) then some below else some above

/-- The hit on the coarsest of the `fuel` grids from `10 ^ k` downwards. -/
def Binary.searchFrom (b : Binary) : (fuel : Nat) → (k : Int) → Option Scaled
  | 0, _ => none
  | fuel + 1, k =>
    match b.onGrid? k with
    | some d => some ⟨d, k⟩
    | none => b.searchFrom fuel (k - 1)

/-- The shortest decimal that reads back. The search starts on a grid coarser
than the number; seventeen digits always suffice. -/
def Binary.shortest? (b : Binary) : Option Scaled :=
  b.searchFrom 24 (Int.fdiv ((Int.ofNat (Nat.log2 b.mantissa) + b.exponent) * 30103) 100000 + 2)

end Decimal
end Strata
