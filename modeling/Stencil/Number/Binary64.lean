/-!
# Double-precision numbers

A number is its 64-bit pattern, so that equality is decidable and tells the signed zeros and
the payloads of a NaN apart. `decode` gives the exact value as a mantissa times a power of two;
`ofRatio` rounds a quotient of naturals to the nearest number, ties to an even mantissa.
-/

namespace Stencil

structure Binary64 where
  bits : UInt64
deriving DecidableEq, Repr, Inhabited

namespace Binary64

def ofFloat (x : Float) : Binary64 := ⟨x.toBits⟩

def toFloat (x : Binary64) : Float := Float.ofBits x.bits

/-- `finite negative m q` is `m · 2^q` with its sign. -/
inductive Decoded
  | nan
  | infinite (negative : Bool)
  | finite (negative : Bool) (mantissa : Nat) (exponent : Int)
deriving DecidableEq, Repr

def decode (x : Binary64) : Decoded :=
  let n := x.bits.toNat
  let negative : Bool := n / Nat.pow 2 63 = 1
  let field : Nat := n / Nat.pow 2 52 % Nat.pow 2 11
  let fraction : Nat := n % Nat.pow 2 52
  if field = Nat.pow 2 11 - 1 then
    if fraction = 0 then .infinite negative else .nan
  else if field = 0 then .finite negative fraction (-1074)
  else .finite negative (Nat.pow 2 52 + fraction) ((field : Int) - 1075)

def signBit (negative : Bool) : Nat := if negative then Nat.pow 2 63 else 0

def infinity (negative : Bool) : Binary64 :=
  ⟨UInt64.ofNat (signBit negative + (Nat.pow 2 11 - 1) * Nat.pow 2 52)⟩

def nan : Binary64 := ⟨UInt64.ofNat ((Nat.pow 2 12 - 1) * Nat.pow 2 51)⟩

def zero (negative : Bool) : Binary64 := ⟨UInt64.ofNat (signBit negative)⟩

/-- The number with a mantissa below `2^53`, normal unless the exponent is least. -/
def encode (negative : Bool) (mantissa : Nat) (exponent : Int) : Binary64 :=
  if mantissa < Nat.pow 2 52 then ⟨UInt64.ofNat (signBit negative + mantissa)⟩
  else if exponent > 971 then infinity negative
  else
    ⟨UInt64.ofNat (signBit negative + (exponent + 1075).toNat * Nat.pow 2 52 +
      (mantissa - Nat.pow 2 52))⟩

/-- The quotient rounded to the nearest natural, a half to the even neighbour. -/
def roundDiv (num den : Nat) : Nat :=
  let q := num / den
  let r := num % den
  if 2 * r < den then q
  else if 2 * r > den then q + 1
  else q + q % 2

def scaledQuotient (num den : Nat) (e : Int) : Nat :=
  if e ≥ 0 then roundDiv num (den * Nat.pow 2 e.toNat)
  else roundDiv (num * Nat.pow 2 (-e).toNat) den

def ofRatio (negative : Bool) (num den : Nat) : Binary64 :=
  if num = 0 then zero negative
  else
    let guess : Int := (num.log2 : Int) - (den.log2 : Int) - 53
    let low : Int := max guess (-1074)
    let wide :=
      if low ≥ 0 then num / (den * Nat.pow 2 low.toNat) else num * Nat.pow 2 (-low).toNat / den
    let e := if wide ≥ Nat.pow 2 53 then low + 1 else low
    let m := scaledQuotient num den e
    if m = Nat.pow 2 53 then encode negative (Nat.pow 2 52) (e + 1) else encode negative m e

def ofInt (n : Int) : Binary64 := ofRatio (n < 0) n.natAbs 1

def isNaN (x : Binary64) : Bool := x.decode = .nan

def isInfinite (x : Binary64) : Bool :=
  match x.decode with
  | .infinite _ => true
  | _ => false

def isZero (x : Binary64) : Bool :=
  match x.decode with
  | .finite _ 0 _ => true
  | _ => false

def isNegative (x : Binary64) : Bool := x.bits.toNat / Nat.pow 2 63 = 1

def negate (x : Binary64) : Binary64 := ⟨x.bits ^^^ ((1 : UInt64) <<< 63)⟩

def abs (x : Binary64) : Binary64 := if x.isNegative then x.negate else x

/-- The exact value as sign, numerator and denominator; `none` if it is not finite. -/
def ratio? (x : Binary64) : Option (Bool × Nat × Nat) :=
  match x.decode with
  | .finite negative m q =>
    some (if q ≥ 0 then (negative, m * Nat.pow 2 q.toNat, 1)
      else (negative, m, Nat.pow 2 (-q).toNat))
  | _ => none

def truncate? (x : Binary64) : Option Int :=
  x.ratio?.map fun (negative, n, d) => if negative then -((n / d : Nat) : Int) else (n / d : Nat)

def round? (x : Binary64) : Option Int :=
  x.ratio?.map fun (negative, n, d) =>
    if negative then -((roundDiv n d : Nat) : Int) else (roundDiv n d : Nat)

def isInteger (x : Binary64) : Bool :=
  match x.ratio? with
  | some (_, n, d) => n % d = 0
  | none => false

def binary (f : Float → Float → Float) (x y : Binary64) : Binary64 :=
  ofFloat (f x.toFloat y.toFloat)

def add : Binary64 → Binary64 → Binary64 := binary (· + ·)
def sub : Binary64 → Binary64 → Binary64 := binary (· - ·)
def mul : Binary64 → Binary64 → Binary64 := binary (· * ·)
def div : Binary64 → Binary64 → Binary64 := binary (· / ·)
def pow : Binary64 → Binary64 → Binary64 := binary Float.pow

def compare? (x y : Binary64) : Option Ordering :=
  let a := x.toFloat
  let b := y.toFloat
  if a < b then some .lt else if b < a then some .gt else if a == b then some .eq else none

def compareInt? (x : Binary64) (n : Int) : Option Ordering :=
  match x.decode with
  | .nan => none
  | .infinite negative => some (if negative then .lt else .gt)
  | .finite negative m q =>
    let signed : Int := if negative then -(m : Int) else m
    some (if q ≥ 0 then compare (signed * Int.pow 2 q.toNat) n
      else compare signed (n * Int.pow 2 (-q).toNat))

/-- The remainder that has the sign of the dividend; both arguments finite, the second not
zero. -/
def truncatedRemainder (x y : Binary64) : Binary64 :=
  match x.ratio?, y.ratio? with
  | some (negative, n, d), some (_, n', d') => ofRatio negative ((n * d') % (n' * d)) (d * d')
  | _, _ => if y.isInfinite && !x.isInfinite && !x.isNaN then x else nan

/-- Quotient rounded down and the remainder that has the sign of the divisor. -/
def floorDivMod (x y : Binary64) : Binary64 × Binary64 :=
  let r := truncatedRemainder x y
  let adjust := !r.isZero && r.isNegative ≠ y.isNegative && !r.isNaN
  let m := if r.isZero then zero y.isNegative else if adjust then r.add y else r
  let q₀ := (x.sub r).div y
  let q := if adjust then q₀.sub (ofInt 1) else q₀
  let whole :=
    if q.isZero then zero (x.div y).isNegative
    else
      let down := ofFloat q.toFloat.floor
      if (q.sub down).toFloat > 0.5 then down.add (ofInt 1) else down
  (whole, m)

end Binary64

end Stencil
