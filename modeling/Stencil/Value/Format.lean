import Stencil.Number.Read
import Stencil.Value.Show

/-!
# Formatted values

A format specification gives fill, alignment, sign, width, grouping, precision and presentation
of a value. `Format.Spec.read` takes one apart; `Value.formatted` applies it. Numbers are put
together from a sign, a mark of their base, grouped digits and a remainder, with the padding
between those parts that the alignment asks for.
-/

namespace Stencil

inductive Alignment
  | left | right | center
  /-- Padding goes behind the sign and the mark of the base. -/
  | inside
deriving DecidableEq, Repr

def Alignment.ofChar? : Char → Option Alignment
  | '<' => some left
  | '>' => some right
  | '^' => some center
  | '=' => some inside
  | _ => none

/-- What stands before a number that is not negative. -/
inductive SignRule
  | minusOnly | plus | blank
deriving DecidableEq, Repr

def SignRule.chars (r : SignRule) (negative : Bool) : List Char :=
  if negative then ['-']
  else
    match r with
    | minusOnly => []
    | plus => ['+']
    | blank => [' ']

structure FormatSpec where
  fill : Char
  alignment : Alignment
  sign : Option SignRule
  dropZeroSign : Bool
  alternate : Bool
  width : Nat
  separator : Option Char
  precision : Option Nat
  presentation : Option Char
deriving Repr

namespace Format

def padding (width size : Nat) (fill : Char) : List Char := List.replicate (width - size) fill

def aligned (a : Alignment) (fill : Char) (width : Nat) (s : List Char) : List Char :=
  let pad := padding width s.length fill
  match a with
  | .left => s ++ pad
  | .right | .inside => pad ++ s
  | .center => pad.take (pad.length / 2) ++ s ++ pad.drop (pad.length / 2)

/-- A separator between groups of `size` digits, counted from the right. -/
def grouped (separator : Char) (size : Nat) (digits : List Char) : List Char :=
  let n := digits.length
  (digits.zipIdx.flatMap fun (c, i) =>
    if i ≠ 0 && (n - i) % size = 0 then [separator, c] else [c])

/-- The least number of digits that fill `width` places with their separators. -/
def digitsToFill (width size : Nat) : Nat :=
  ((List.range (width + 1)).find? fun n => width ≤ n + (n - 1) / size).getD width

structure Parts where
  sign : List Char
  mark : List Char
  digits : List Char
  remainder : List Char

def Parts.chars (p : Parts) (spec : FormatSpec) (groupSize : Nat) : List Char :=
  let fixed := p.sign.length + p.mark.length + p.remainder.length
  let digits :=
    match spec.separator with
    | none => p.digits
    | some separator =>
      if p.digits.isEmpty then []
      else
        let least :=
          if spec.fill = '0' && spec.alignment = .inside then
            digitsToFill (spec.width - fixed) groupSize
          else 0
        grouped separator groupSize (padding least p.digits.length '0' ++ p.digits)
  let pad := padding spec.width (fixed + digits.length) spec.fill
  let body := p.mark ++ digits ++ p.remainder
  match spec.alignment with
  | .left => p.sign ++ body ++ pad
  | .right => pad ++ p.sign ++ body
  | .center => pad.take (pad.length / 2) ++ p.sign ++ body ++ pad.drop (pad.length / 2)
  | .inside => p.sign ++ p.mark ++ pad ++ digits ++ p.remainder

inductive Notation
  | fixed | exponential | general
deriving DecidableEq, Repr

def dropZeros (s : List Char) : List Char := Text.dropEndWhile (· = '0') s

def withFraction (whole fraction : List Char) (keepPoint : Bool) : List Char :=
  whole ++ if fraction.isEmpty && !keepPoint then [] else '.' :: fraction

/-- The absolute value of a number to `precision` places. In general notation the precision
counts significant digits, `alternate` keeps zeros at the end, and `whole` writes `.0` behind a
whole number. -/
def floatDigits (n : Notation) (precision : Nat) (alternate whole : Bool) (x : Binary64) :
    List Char :=
  match x.decode with
  | .nan => "nan".toList
  | .infinite _ => "inf".toList
  | _ =>
    match n with
    | .fixed =>
      let (w, f) := Binary64.placed ((x.scaled? precision).getD 0) precision
      withFraction w f alternate
    | .exponential =>
      let (digits, point) := (x.significant? (precision + 1)).getD ([], 1)
      Decimal.scientific digits point alternate
    | .general =>
      let count := max precision 1
      let (digits, point) := (x.significant? count).getD ([], 1)
      let kept := if alternate then digits else
        match dropZeros digits with
        | [] => ['0']
        | ds => ds
      let limit : Int := if whole then (count : Int) - 1 else count
      if point ≤ -4 || point > limit then Decimal.scientific kept point alternate
      else
        let (w, f) := Decimal.positional kept point
        if f.isEmpty && whole then w ++ ['.', '0'] else withFraction w f alternate

def isRoundedToZero (s : List Char) : Bool :=
  s.head? = some '0' && (s.takeWhile fun c => c.isDigit || c = '.').all fun c => c = '0' || c = '.'

def pointedExponent (alternate : Bool) : List Char → List Char
  | d :: 'e' :: rest => if alternate then d :: '.' :: 'e' :: rest else d :: 'e' :: rest
  | s => s

def shownType (c : Char) : String :=
  if 32 < c.toNat && c.toNat < 127 then c.toString
  else "\\x" ++ String.ofList (Nat.toDigits 16 c.toNat)

def unknownType (c : Char) (kind : String) : Fault :=
  .value ("Unknown format code '" ++ shownType c ++ "' for object of type '" ++ kind ++ "'")

def floatType? : Char → Option Notation
  | 'e' | 'E' => some .exponential
  | 'f' | 'F' | '%' => some .fixed
  | 'g' | 'G' | 'n' => some .general
  | _ => none

def largestPrecision : Nat := Nat.pow 2 31 - 1

def checkPrecision (spec : FormatSpec) : Except Fault Unit :=
  if spec.precision.any (· > largestPrecision) then .error (.value "precision too big") else .ok ()

def formatFloat (spec : FormatSpec) (kind : String) (x : Binary64) : Except Fault (List Char) := do
  let body ←
    match spec.presentation with
    | none =>
      checkPrecision spec
      pure <| match spec.precision with
        | none => pointedExponent spec.alternate (x.abs.chars true)
        | some p => floatDigits .general p spec.alternate true x
    | some c =>
      match floatType? c with
      | none => throw (unknownType c kind)
      | some n =>
        checkPrecision spec
        let y := if c = '%' then x.mul (Binary64.ofInt 100) else x
        let s := floatDigits n (spec.precision.getD 6) spec.alternate false y
        let s := if c = '%' then s ++ ['%'] else s
        pure (if c.isUpper then s.map Char.toUpper else s)
  let negative := x.isNegative && !x.isNaN && !(spec.dropZeroSign && isRoundedToZero body)
  let digits := body.takeWhile Char.isDigit
  let parts : Parts :=
    ⟨(spec.sign.getD .minusOnly).chars negative, [], digits, body.drop digits.length⟩
  return parts.chars spec 3

def baseOf : Char → Nat
  | 'b' => 2
  | 'o' => 8
  | 'x' | 'X' => 16
  | _ => 10

def markOf : Char → List Char
  | 'b' => ['0', 'b']
  | 'o' => ['0', 'o']
  | 'x' => ['0', 'x']
  | 'X' => ['0', 'X']
  | _ => []

def natDigits (type : Char) (n : Nat) : List Char :=
  let digits := Nat.toDigits (baseOf type) n
  if type = 'X' then digits.map Char.toUpper else digits

def characterOf (n : Int) : Except Fault Char :=
  if n < 0 || n ≥ 0x110000 then .error (.overflow "%c arg not in range(0x110000)")
  else .ok (Char.ofNat n.toNat)

def formatInteger (spec : FormatSpec) (kind : String) (n : Int) : Except Fault (List Char) := do
  let type := spec.presentation.getD 'd'
  if "bcdoxXn".toList.contains type then
    if spec.precision.isSome then
      throw (.value "Precision not allowed in integer format specifier")
    if spec.dropZeroSign then
      throw (.value "Negative zero coercion (z) not allowed in integer format specifier")
    if type = 'c' then
      if spec.sign.isSome then
        throw (.value "Sign not allowed with integer format specifier 'c'")
      if spec.alternate then
        throw (.value "Alternate form (#) not allowed with integer format specifier 'c'")
      let parts : Parts := ⟨[], [], [], [← characterOf n]⟩
      return parts.chars spec 3
    let _ ← if baseOf type = 10 then integerText n else pure ""
    let parts : Parts :=
      ⟨(spec.sign.getD .minusOnly).chars (n < 0), if spec.alternate then markOf type else [],
        natDigits type n.natAbs, []⟩
    return parts.chars spec (if baseOf type = 10 then 3 else 4)
  else if (floatType? type).isSome then
    formatFloat spec kind (← Num.floatOfInt n)
  else throw (unknownType type kind)

def formatText (spec : FormatSpec) (s : List Char) : Except Fault (List Char) := do
  match spec.presentation with
  | some 's' | none => pure ()
  | some c => throw (unknownType c "str")
  match spec.sign with
  | none => pure ()
  | some .blank => throw (.value "Space not allowed in string format specifier")
  | some _ => throw (.value "Sign not allowed in string format specifier")
  if spec.dropZeroSign then
    throw (.value "Negative zero coercion (z) not allowed in string format specifier")
  if spec.alternate then
    throw (.value "Alternate form (#) not allowed in string format specifier")
  if spec.alignment = .inside then
    throw (.value "'=' alignment not allowed in string format specifier")
  let s := match spec.precision with
    | some p => s.take p
    | none => s
  return aligned spec.alignment spec.fill spec.width s

def leadingNumber (s : List Char) : Except Fault (Option Nat × List Char) :=
  let digits := s.takeWhile Text.isDecimal
  let n := digits.foldl (fun n c => n * 10 + (Text.decimalValue? c).getD 0) 0
  if n ≥ Nat.pow 2 63 then .error (.value "Too many decimal digits in format string")
  else .ok (if digits.isEmpty then none else some n, s.drop digits.length)

def alignmentOf (s : List Char) : Option (Char × Alignment) × Option Alignment × List Char :=
  match s with
  | c :: a :: rest =>
    match Alignment.ofChar? a with
    | some a => (some (c, a), none, rest)
    | none =>
      match Alignment.ofChar? c with
      | some c => (none, some c, a :: rest)
      | none => (none, none, s)
  | [c] =>
    match Alignment.ofChar? c with
    | some c => (none, some c, [])
    | none => (none, none, s)
  | [] => (none, none, [])

def signOf : List Char → Option SignRule × List Char
  | '+' :: s => (some .plus, s)
  | ' ' :: s => (some .blank, s)
  | '-' :: s => (some .minusOnly, s)
  | s => (none, s)

def takeChar (c : Char) : List Char → Bool × List Char
  | d :: s => if d = c then (true, s) else (false, d :: s)
  | [] => (false, [])

def bothSeparators : Fault := .value "Cannot specify both ',' and '_'."

def separatorOf (s : List Char) : Except Fault (Option Char × List Char) :=
  let (comma, s) := takeChar ',' s
  let (underscore, s) := takeChar '_' s
  if comma && underscore then .error bothSeparators
  else if underscore && s.head? = some ',' then .error bothSeparators
  else .ok (if comma then some ',' else if underscore then some '_' else none, s)

/-- Reads a specification for a value of the given kind, with its usual presentation and
alignment. -/
def readSpec (kind : String) (usual : Option Char) (alignment : Alignment) (text : List Char) :
    Except Fault FormatSpec := do
  let (filled, bare, s) := alignmentOf text
  let (sign, s) := signOf s
  let (dropZeroSign, s) := takeChar 'z' s
  let (alternate, s) := takeChar '#' s
  let (zero, s) := if filled.isNone then takeChar '0' s else (false, s)
  let (width, s) ← leadingNumber s
  let (separator, s) ← separatorOf s
  let (precision, s) ←
    match s with
    | '.' :: s => do
      let (p, s) ← leadingNumber s
      if p.isNone then throw (.value "Format specifier missing precision")
      pure (p, s)
    | s => pure (none, s)
  let presentation ←
    match s with
    | [] => pure usual
    | [c] => pure (some c)
    | _ =>
      throw (.value ("Invalid format specifier '" ++ String.ofList text ++
        "' for object of type '" ++ kind ++ "'"))
  match separator, presentation with
  | some p, some c =>
    let fine := "defgEG%F".toList.contains c || (p = '_' && "boxX".toList.contains c)
    if !fine then
      throw (.value ("Cannot specify '" ++ p.toString ++ "' with '" ++ shownType c ++ "'."))
  | _, _ => pure ()
  let usualAlignment := if zero && alignment = .right then .inside else alignment
  return {
    fill := (filled.map (·.1)).getD (if zero then '0' else ' ')
    alignment := ((filled.map (·.2)).or bare).getD usualAlignment
    sign, dropZeroSign, alternate, width := width.getD 0, separator, precision, presentation }

end Format

namespace Value

open Format

/-- A value under a format specification; without one it is the plain text. -/
def formatted (h : Heap) (v : Value) (spec : String) : Except Fault String := do
  if spec.isEmpty then text h v
  else
    let cs := spec.toList
    match v with
    | .str s => return String.ofList (← formatText (← readSpec "str" (some 's') .left cs) s.toList)
    | .int n =>
      return String.ofList (← formatInteger (← readSpec "int" (some 'd') .right cs) "int" n)
    | .bool b =>
      let s ← readSpec "bool" (some 'd') .right cs
      return String.ofList (← formatInteger s "bool" (if b then 1 else 0))
    | .float x =>
      return String.ofList (← formatFloat (← readSpec "float" .none .right cs) "float" x)
    | v =>
      .error (.type ("unsupported format string passed to " ++ v.kindName ++ ".__format__"))

end Value

end Stencil
