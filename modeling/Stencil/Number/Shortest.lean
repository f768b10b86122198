import Stencil.Number.Binary64

/-!
# The shortest decimal

The fewest significant digits that read back as a given number, and of those the decimal
nearest to it. For each count of digits the two neighbours of the value on that decimal grid
are tested against the interval of reals that round to it.
-/

namespace Stencil

structure Decimal where
  digits : Nat
  exponent : Int
deriving DecidableEq, Repr

namespace Decimal

def digitChars (n : Nat) : List Char := Nat.toDigits 10 n

def point (d : Decimal) : Int := (digitChars d.digits).length + d.exponent

end Decimal

namespace Binary64

/-- A value with the ends of its rounding interval, all over one denominator. -/
structure Neighbourhood where
  low : Nat
  value : Nat
  high : Nat
  den : Nat
  closed : Bool

def neighbourhood (m : Nat) (q : Int) : Neighbourhood :=
  let low := if m = Nat.pow 2 52 ∧ q ≠ -1074 then 4 * m - 1 else 4 * m - 2
  let scale : Nat := if q ≥ 2 then Nat.pow 2 (q - 2).toNat else 1
  let den : Nat := if q ≥ 2 then 1 else Nat.pow 2 (2 - q).toNat
  ⟨low * scale, 4 * m * scale, (4 * m + 2) * scale, den, m % 2 = 0⟩

/-- The number of digits before the decimal point, negative for leading zeros behind it. -/
def pointOf (num den : Nat) : Int :=
  if num ≥ den then (Decimal.digitChars (num / den)).length
  else
    let zeros := (List.range 400).takeWhile fun j => num * Nat.pow 10 (j + 1) < den
    Int.neg zeros.length

/-- The best decimal with `count` digits, if one reads back. -/
def candidate? (h : Neighbourhood) (point : Int) (count : Nat) : Option Decimal :=
  let k : Int := point - count
  -- in units of 10^k
  let up : Nat := if k ≥ 0 then 1 else Nat.pow 10 (-k).toNat
  let unit : Nat := (if k ≥ 0 then Nat.pow 10 k.toNat else 1) * h.den
  let below := h.value * up / unit
  let inside (d : Nat) : Bool :=
    if h.closed then h.low * up ≤ d * unit && d * unit ≤ h.high * up
    else h.low * up < d * unit && d * unit < h.high * up
  let rest := h.value * up % unit
  let decimal (d : Nat) : Decimal := if d = Nat.pow 10 count then ⟨1, point⟩ else ⟨d, k⟩
  match inside below, inside (below + 1) with
  | false, false => none
  | true, false => some (decimal below)
  | false, true => some (decimal (below + 1))
  | true, true =>
    if 2 * rest < unit || (2 * rest = unit && below % 2 = 0) then some (decimal below)
    else some (decimal (below + 1))

def shortest (m : Nat) (q : Int) : Decimal :=
  let h := neighbourhood m q
  let point := pointOf h.value h.den
  ((List.range 17).findSome? fun i => candidate? h point (i + 1)).getD ⟨0, 0⟩

end Binary64

end Stencil
