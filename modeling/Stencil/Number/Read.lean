import Stencil.Number.Binary64
import Stencil.Text.Blank
import Stencil.Text.Decimal

/-!
# Reading numbers

Decimal numbers round to the nearest double. Digits may be grouped by single underscores
between them, and digits of any script count. Blanks at either end are ignored.
-/

namespace Stencil.Number

open Text

/-- `digits · 10^exponent`, without the cost of a needlessly large power. -/
def ofDecimal (negative : Bool) (digits : Nat) (exponent : Int) : Binary64 :=
  let size := (Nat.toDigits 10 digits).length
  if digits = 0 then Binary64.zero negative
  else if exponent + size > 400 then Binary64.infinity negative
  else if exponent + size < -400 then Binary64.zero negative
  else if exponent ≥ 0 then Binary64.ofRatio negative (digits * Nat.pow 10 exponent.toNat) 1
  else Binary64.ofRatio negative digits (Nat.pow 10 (-exponent).toNat)

def asciiDigits (s : List Char) : List Char :=
  s.map fun c => match decimalValue? c with
    | some d => Char.ofNat ('0'.toNat + d)
    | none => c

/-- Removes underscores, each of which has to stand between two digits. -/
def ungroup (isDigit : Char → Bool) : List Char → Option (List Char)
  | [] => some []
  | '_' :: _ => none
  | c :: '_' :: d :: cs =>
    if isDigit c && isDigit d then (ungroup isDigit (d :: cs)).map (c :: ·) else none
  | c :: cs => (ungroup isDigit cs).map (c :: ·)

def splitSign : List Char → Bool × List Char
  | '-' :: cs => (true, cs)
  | '+' :: cs => (false, cs)
  | cs => (false, cs)

def digitValue (c : Char) : Nat :=
  if c.isDigit then c.toNat - '0'.toNat
  else if 'a' ≤ c && c ≤ 'z' then c.toNat - 'a'.toNat + 10
  else if 'A' ≤ c && c ≤ 'Z' then c.toNat - 'A'.toNat + 10
  else 36

def natOfDigits (base : Nat) (s : List Char) : Nat :=
  s.foldl (fun n c => n * base + digitValue c) 0

/-- The value of digits in `base`, `none` if a character is no digit of it. -/
def readDigits? (base : Nat) (s : List Char) : Option Nat :=
  if s.isEmpty || s.any (fun c => base ≤ digitValue c) then none else some (natOfDigits base s)

/-- An unsigned decimal with optional point and exponent, all in ASCII digits. -/
def readUnsigned? (s : List Char) : Option (Nat × Int) :=
  let whole := s.takeWhile Char.isDigit
  let rest := s.drop whole.length
  let (fraction, rest) := match rest with
    | '.' :: more => (more.takeWhile Char.isDigit, more.dropWhile Char.isDigit)
    | _ => ([], rest)
  if whole.isEmpty && fraction.isEmpty then none
  else
    let digits := natOfDigits 10 (whole ++ fraction)
    match rest with
    | [] => some (digits, -(fraction.length : Int))
    | e :: more =>
      if e = 'e' || e = 'E' then
        let (negative, power) := splitSign more
        if power.isEmpty || power.any (!Char.isDigit ·) then none
        else
          let k : Int := natOfDigits 10 power
          some (digits, (if negative then -k else k) - fraction.length)
      else none

def readFloat? (s : List Char) : Option Binary64 :=
  match ungroup Char.isDigit (asciiDigits (strip s)) with
  | none => none
  | some t =>
    let (negative, body) := splitSign t
    let word := String.ofList (body.map Char.toLower)
    if word = "inf" || word = "infinity" then some (Binary64.infinity negative)
    else if word = "nan" then some Binary64.nan
    else (readUnsigned? body).map fun (digits, exponent) => ofDecimal negative digits exponent

def announcedBase? : List Char → Option Nat
  | '0' :: c :: _ =>
    match c.toLower with
    | 'x' => some 16
    | 'o' => some 8
    | 'b' => some 2
    | _ => none
  | _ => none

/-- An integer in `base`; base zero takes the base from the text. -/
def readInt? (base : Nat) (s : List Char) : Option Int :=
  let (negative, body) := splitSign (asciiDigits (strip s))
  let announced := announcedBase? body
  let digits :=
    if announced.isSome && (base = 0 || announced = some base) then body.drop 2 else body
  let stripped := if announced.isSome && digits.length < body.length then
      (match digits with
        | '_' :: more => more
        | _ => digits)
    else digits
  let radix := if base = 0 then announced.getD 10 else base
  match ungroup (fun c => digitValue c < radix) stripped with
  | none => none
  | some t =>
    if base = 0 && announced.isNone && t.head? = some '0' && t.any (· ≠ '0') then none
    else (readDigits? radix t).map fun n => if negative then -(n : Int) else n

end Stencil.Number
