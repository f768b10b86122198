import Stencil.Value.Format

/-!
# Percent formatting

A text with conversions such as `%s` and `%.2f` takes its arguments from a tuple, from a
mapping by name, or is given a single one. `Percent.fill` walks the text once and hands out the
arguments in order; all of them have to be used.
-/

namespace Stencil.Percent

structure Flags where
  left : Bool
  plus : Bool
  blank : Bool
  alternate : Bool
  zero : Bool
deriving Repr

def Flags.none : Flags := ⟨false, false, false, false, false⟩

/-- The arguments still to be used; `mapping` gives those with a name. -/
structure Supply where
  rest : List Value
  /-- Whether the arguments came as one value that is no tuple. -/
  single : Bool
  mapping : Option Ref

abbrev Fill := StateT (List Char) (StateT Supply (Except Fault))

def peek : Fill (Option Char) := do return (← get).head?

def skip (n : Nat) : Fill Unit := modify (List.drop n)

def incomplete {α : Type} : Fill α := throw (.value "incomplete format")

def nextArgument : Fill Value := do
  let supply ← getThe Supply
  match supply.rest with
  | v :: rest =>
    set { supply with rest }
    return v
  | [] => throw (.type "not enough arguments for format string")

/-- The name up to the closing parenthesis that belongs to the one just read. -/
def nameBefore (depth : Nat) : List Char → Option (List Char × List Char)
  | [] => none
  | ')' :: s =>
    match depth with
    | 0 => some ([], s)
    | d + 1 => (nameBefore d s).map fun (n, r) => (')' :: n, r)
  | '(' :: s => (nameBefore (depth + 1) s).map fun (n, r) => ('(' :: n, r)
  | c :: s => (nameBefore depth s).map fun (n, r) => (c :: n, r)

def flag? (f : Flags) : Char → Option Flags
  | '-' => some { f with left := true }
  | '+' => some { f with plus := true }
  | ' ' => some { f with blank := true }
  | '#' => some { f with alternate := true }
  | '0' => some { f with zero := true }
  | _ => none

def readFlags (f : Flags) : List Char → Flags × List Char
  | [] => (f, [])
  | c :: s =>
    match flag? f c with
    | some f => readFlags f s
    | none => (f, c :: s)

/-- A field size: digits, an argument for `*`, or none. -/
def size (limit : Nat) (what : String) : Fill (Option Int) := do
  let s ← get
  match s with
  | '*' :: s =>
    set s
    match ← nextArgument with
    | .int n => return some n
    | .bool b => return some (if b then 1 else 0)
    | _ => throw (.type "* wants int")
  | s =>
    let digits := s.takeWhile Char.isDigit
    skip digits.length
    let n := Number.natOfDigits 10 digits
    if n > limit then throw (.value (what ++ " too big"))
    return if digits.isEmpty then none else some n

structure Conversion where
  flags : Flags
  width : Nat
  precision : Option Nat
  type : Char

def Conversion.spec (c : Conversion) : FormatSpec where
  fill := if c.flags.zero && !c.flags.left then '0' else ' '
  alignment := if c.flags.left then .left else if c.flags.zero then .inside else .right
  sign := if c.flags.plus then some .plus else if c.flags.blank then some .blank else none
  dropZeroSign := false
  alternate := c.flags.alternate
  width := c.width
  separator := none
  precision := c.precision
  presentation := some c.type

def truncated (n : Option Nat) (s : List Char) : List Char :=
  match n with
  | some n => s.take n
  | none => s

def placeText (c : Conversion) (s : String) : List Char :=
  Format.aligned (if c.flags.left then .left else .right) ' ' c.width
    (truncated c.precision s.toList)

def wrongNumber (c : Conversion) (wanted : String) (v : Value) : Fault :=
  .type ("%" ++ c.type.toString ++ " format: " ++ wanted ++ " is required, not " ++ v.kindName)

def integerOf (c : Conversion) (v : Value) : Except Fault Int :=
  match v.integer?, v with
  | some n, _ => .ok n
  | _, .float x =>
    if (c.type = 'd' || c.type = 'i' || c.type = 'u') then
      match x.truncate? with
      | some n => .ok n
      | none =>
        if x.isNaN then .error (.value "cannot convert float NaN to integer")
        else .error (.overflow "cannot convert float infinity to integer")
    else .error (wrongNumber c "an integer" v)
  | _, _ =>
    .error (wrongNumber c
      (if c.type = 'd' || c.type = 'i' || c.type = 'u' then "a real number" else "an integer") v)

def placeInteger (c : Conversion) (n : Int) : List Char :=
  let digits := Format.natDigits c.type n.natAbs
  let spec := c.spec
  let parts : Format.Parts :=
    ⟨(spec.sign.getD .minusOnly).chars (n < 0),
      if c.flags.alternate then Format.markOf c.type else [],
      Format.padding (c.precision.getD 0) digits.length '0' ++ digits, []⟩
  parts.chars spec 3

def realOf (v : Value) : Except Fault Binary64 :=
  match v.number? with
  | some (.int n) => Num.floatOfInt n
  | some (.float x) => .ok x
  | _ => .error (.type ("must be real number, not " ++ v.kindName))

def oneCharacter (v : Value) : Except Fault String :=
  match v with
  | .str s => if s.length = 1 then .ok s else .error (.type "%c requires int or char")
  | v =>
    match v.integer? with
    | some n => do return (← Format.characterOf n).toString
    | none => .error (.type "%c requires int or char")

/-- What a conversion makes of its argument; `index` is where its type stands. -/
def convert (h : Heap) (c : Conversion) (index : Nat) (v : Value) : Except Fault (List Char) := do
  if c.type = 's' then return placeText c (← v.text h)
  else if c.type = 'r' then return placeText c (← v.written h)
  else if c.type = 'a' then return placeText c (Value.asciiOnly (← v.written h))
  else if c.type = 'c' then return placeText { c with precision := none } (← oneCharacter v)
  else if "diuoxX".toList.contains c.type then
    let n ← integerOf c v
    if Format.baseOf c.type = 10 then discard (integerText n)
    return placeInteger c n
  else if "eEfFgG".toList.contains c.type then
    Format.formatFloat { c.spec with precision := some (c.precision.getD 6) } "float" (← realOf v)
  else
    let shown := if 31 < c.type.toNat && c.type.toNat < 127 then c.type.toString else "?"
    throw (.value ("unsupported format character '" ++ shown ++ "' (0x" ++
      String.ofList (Nat.toDigits 16 c.type.toNat) ++ ") at index " ++ toString index))

def isNamed (label : List Char) (e : Value × Value) : Bool :=
  match e.1 with
  | .str s => s.toList = label
  | _ => false

/-- Looks up the argument of a conversion that gives its name. -/
def takeNamed (h : Heap) : Fill Unit := do
  match ← get with
  | '(' :: s =>
    let some r := (← getThe Supply).mapping | throw (.type "format requires a mapping")
    let some (label, s) := nameBefore 0 s | throw (.value "incomplete format key")
    set s
    let some (_, v) := (h.dictEntries r).find? (isNamed label)
      | throw (Fault.key (String.ofList label).quoted)
    modifyThe Supply fun supply => { supply with rest := [v], single := true }
  | _ => return ()

def readPrecision : Fill (Option Nat) := do
  if (← peek) = some '.' then
    skip 1
    return some ((← size (Nat.pow 2 31 - 1) "precision").getD 0).toNat
  else return none

def skipLength : Fill Unit := do
  let next ← peek
  skip (if next = some 'h' || next = some 'l' || next = some 'L' then 1 else 0)

def readType : Fill Char := do
  match ← peek with
  | some type =>
    skip 1
    return type
  | none => incomplete

/-- The conversion behind a percent sign; `total` is the length of the whole text. -/
def conversion (h : Heap) (total : Nat) : Fill (List Char) := do
  takeNamed h
  let (flags, s) := readFlags .none (← get)
  set s
  let width ← size (Nat.pow 2 63 - 1) "width"
  let flags := if width.any (· < 0) then { flags with left := true } else flags
  let precision ← readPrecision
  skipLength
  let type ← readType
  let v ← nextArgument
  let index := total - (← get).length - 1
  convert h ⟨flags, (width.getD 0).natAbs, precision, type⟩ index v

def fillFrom (h : Heap) (total : Nat) : Nat → Fill (List Char)
  | 0 => pure []
  | fuel + 1 => do
    match ← get with
    | [] => return []
    | '%' :: '%' :: s =>
      set s
      return '%' :: (← fillFrom h total fuel)
    | '%' :: s =>
      set s
      let piece ← conversion h total
      return piece ++ (← fillFrom h total fuel)
    | c :: s =>
      set s
      return c :: (← fillFrom h total fuel)

def mayRemain : Value → Bool
  | .dict _ | .list _ | .range .. | .bytes _ | .row _ | .undefined => true
  | _ => false

/-- What there is to hand out: the items of a tuple, or a single value. -/
def Supply.ofArguments : Value → Supply
  | .tuple items => ⟨items, false, none⟩
  | .dict r => ⟨[.dict r], true, some r⟩
  | .row r => ⟨[.row r], true, some r⟩
  | v => ⟨[v], true, none⟩

def fill (h : Heap) (format : String) (arguments : Value) : Except Fault String := do
  let cs := format.toList
  let ((result, _), left) ←
    ((fillFrom h cs.length (cs.length + 1)).run cs).run (.ofArguments arguments)
  if !left.rest.isEmpty && !(mayRemain arguments) then
    throw (.type "not all arguments converted during string formatting")
  return String.ofList result

end Stencil.Percent
