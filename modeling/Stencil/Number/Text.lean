import Stencil.Number.Shortest

/-!
# Numbers as text

The default text of a number is its shortest decimal, positional while the point stands after
at most sixteen digits and before at most three zeros, else with an exponent of at least two
digits. Fixed and exponential notation round the exact value, a half to the even digit.
-/

namespace Stencil

def zeros (n : Nat) : List Char := List.replicate n '0'

def natText (n : Nat) : List Char := Decimal.digitChars n

def exponentText (e : Int) : List Char :=
  let digits := natText e.natAbs
  (if e < 0 then '-' else '+') :: (zeros (2 - digits.length) ++ digits)

namespace Decimal

def positional (digits : List Char) (point : Int) : List Char × List Char :=
  if point ≤ 0 then (['0'], zeros (-point).toNat ++ digits)
  else if (digits.length : Int) ≤ point then
    (digits ++ zeros (point.toNat - digits.length), [])
  else (digits.take point.toNat, digits.drop point.toNat)

def scientific (digits : List Char) (point : Int) (alwaysPoint : Bool) : List Char :=
  let fraction := digits.drop 1
  digits.take 1 ++ (if fraction.isEmpty && !alwaysPoint then [] else '.' :: fraction) ++
    'e' :: exponentText (point - 1)

end Decimal

namespace Binary64

def signText (negative : Bool) : List Char := if negative then ['-'] else []

/-- The default text; `keepPoint` puts `.0` behind a whole number. -/
def chars (x : Binary64) (keepPoint : Bool) : List Char :=
  match x.decode with
  | .nan => "nan".toList
  | .infinite negative => signText negative ++ "inf".toList
  | .finite negative 0 _ => signText negative ++ (if keepPoint then "0.0" else "0").toList
  | .finite negative m q =>
    let d := shortest m q
    let digits := Decimal.digitChars d.digits
    let point := d.point
    signText negative ++
      if -4 < point ∧ point ≤ 16 then
        let (whole, fraction) := Decimal.positional digits point
        whole ++
          if fraction.isEmpty then (if keepPoint then ".0".toList else []) else '.' :: fraction
      else Decimal.scientific digits point false

def text (x : Binary64) : String := String.ofList (x.chars true)

/-- `|x| · 10^places` rounded to a natural; `none` if `x` is not finite. -/
def scaled? (x : Binary64) (places : Int) : Option Nat :=
  x.ratio?.map fun (_, n, d) =>
    if places ≥ 0 then roundDiv (n * Nat.pow 10 places.toNat) d
    else roundDiv n (d * Nat.pow 10 (-places).toNat)

/-- A natural counting units of `10^-places`, as whole and fractional digits. -/
def placed (n places : Nat) : List Char × List Char :=
  let digits := natText n
  let padded := zeros (places + 1 - digits.length) ++ digits
  (padded.take (padded.length - places), padded.drop (padded.length - places))

/-- The digits of `|x|` to `count` significant places, with the position of the point. -/
def significant? (x : Binary64) (count : Nat) : Option (List Char × Int) :=
  match x.ratio? with
  | none => none
  | some (_, 0, _) => some (zeros count, 1)
  | some (_, n, d) =>
    let point := pointOf n d
    let n' := (x.scaled? (count - point)).getD 0
    let digits := natText n'
    -- rounding up to a power of ten adds a digit
    if digits.length > count then some (digits.take count, point + 1) else some (digits, point)

def roundTo (x : Binary64) (places : Int) : Binary64 :=
  match x.scaled? (max places (-310)) with
  | none => x
  | some n =>
    if places > 330 then x
    else if places < -310 then zero x.isNegative
    else if places ≥ 0 then ofRatio x.isNegative n (Nat.pow 10 places.toNat)
    else ofRatio x.isNegative (n * Nat.pow 10 (-places).toNat) 1

end Binary64

end Stencil
