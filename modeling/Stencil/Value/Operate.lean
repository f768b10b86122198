import Stencil.Value.Keyed
import Stencil.Value.Percent

/-!
# Operators

Arithmetic goes by the wider kind of its operands; integers are exact and have no bound. Texts
and sequences are joined and repeated, sets and dictionaries are combined. An operator that its
operands do not support is a fault that names both kinds.
-/

namespace Stencil

namespace UnaryOp

def symbol : UnaryOp → String
  | not => "not"
  | negate => "-"
  | plus => "+"
  | invert => "~"

end UnaryOp

namespace BinaryOp

def symbol : BinaryOp → String
  | add => "+"
  | subtract => "-"
  | multiply => "*"
  | divide => "/"
  | floorDivide => "//"
  | remainder => "%"
  | power => "** or pow()"
  | matrix => "@"
  | shiftLeft => "<<"
  | shiftRight => ">>"
  | bitAnd => "&"
  | bitOr => "|"
  | bitXor => "^"

end BinaryOp

namespace Bits

/-- The natural that has the bits of an integer, those of a negative one inverted. -/
def magnitude (n : Int) : Nat := if n < 0 then (-n - 1).toNat else n.toNat

def ofMagnitude (inverted : Bool) (n : Nat) : Int := if inverted then -(n : Int) - 1 else n

def and (a b : Int) : Int :=
  let x := magnitude a
  let y := magnitude b
  match decide (a < 0), decide (b < 0) with
  | false, false => ofMagnitude false (x &&& y)
  | false, true => ofMagnitude false (x - (x &&& y))
  | true, false => ofMagnitude false (y - (x &&& y))
  | true, true => ofMagnitude true (x ||| y)

def or (a b : Int) : Int := -(and (-a - 1) (-b - 1)) - 1

def xor (a b : Int) : Int :=
  ofMagnitude (decide (a < 0) != decide (b < 0)) (magnitude a ^^^ magnitude b)

end Bits

namespace Num

def divisionByZero (message : String) : Fault := .zeroDivision message

def divideIntegers (a b : Int) : Except Fault Num :=
  if b = 0 then .error (divisionByZero "division by zero")
  else
    let q := Binary64.ofRatio ((a < 0) ≠ (b < 0)) a.natAbs b.natAbs
    if q.isInfinite then .error (.overflow "integer division result too large for a float")
    else .ok (float q)

def outOfRange : Fault := .overflow "(34, 'Numerical result out of range')"

def powerOfFloats (x y : Binary64) : Except Fault Num :=
  if x.isZero && y.isNegative && !y.isZero && !y.isNaN then
    .error (divisionByZero "0.0 cannot be raised to a negative power")
  else if x.isNegative && !x.isZero && !x.isInfinite &&
      !y.isInfinite && !y.isNaN && !y.isInteger then
    let modulus := x.abs.pow y
    let angle := Float.atan2 0.0 (-1.0) * y.toFloat
    .ok (complex (modulus.mul (.ofFloat angle.cos)) (modulus.mul (.ofFloat angle.sin)))
  else
    let r := x.pow y
    if r.isInfinite && !x.isInfinite && !y.isInfinite then .error outOfRange else .ok (float r)

def mostBits : Nat := Nat.pow 2 33

def powerOfIntegers (a b : Int) : Except Fault Num :=
  if b ≥ 0 then
    if a.natAbs ≤ 1 then
      .ok (int (if a = 0 then (if b = 0 then 1 else 0) else if a = 1 ∨ b % 2 = 0 then 1 else -1))
    else if a.natAbs.log2 * b.toNat > mostBits then .error (.told .memory "")
    else .ok (int (a.pow b.toNat))
  else do powerOfFloats (← floatOfInt a) (← floatOfInt b)

def shift (left : Bool) (a b : Int) : Except Fault Num :=
  if b < 0 then .error (.value "negative shift count")
  else if left then
    if a = 0 then .ok (int 0)
    else if b > mostBits then .error (.overflow "too many digits in integer")
    else .ok (int (a * Int.pow 2 b.toNat))
  else if b > mostBits then .ok (int (if a < 0 then -1 else 0))
  else .ok (int (Int.fdiv a (Int.pow 2 b.toNat)))

def ofIntegers (op : BinaryOp) (a b : Int) : Option (Except Fault Num) :=
  match op with
  | .add => some (.ok (int (a + b)))
  | .subtract => some (.ok (int (a - b)))
  | .multiply => some (.ok (int (a * b)))
  | .divide => some (divideIntegers a b)
  | .floorDivide =>
    some (if b = 0 then .error (divisionByZero "integer division or modulo by zero")
      else .ok (int (Int.fdiv a b)))
  | .remainder =>
    some (if b = 0 then .error (divisionByZero "integer modulo by zero")
      else .ok (int (Int.fmod a b)))
  | .power => some (powerOfIntegers a b)
  | .shiftLeft => some (shift true a b)
  | .shiftRight => some (shift false a b)
  | .bitAnd => some (.ok (int (Bits.and a b)))
  | .bitOr => some (.ok (int (Bits.or a b)))
  | .bitXor => some (.ok (int (Bits.xor a b)))
  | .matrix => none

def ofFloats (op : BinaryOp) (x y : Binary64) : Option (Except Fault Num) :=
  match op with
  | .add => some (.ok (float (x.add y)))
  | .subtract => some (.ok (float (x.sub y)))
  | .multiply => some (.ok (float (x.mul y)))
  | .divide =>
    some (if y.isZero then .error (divisionByZero "float division by zero")
      else .ok (float (x.div y)))
  | .floorDivide =>
    some (if y.isZero then .error (divisionByZero "float floor division by zero")
      else .ok (float (x.floorDivMod y).1))
  | .remainder =>
    some (if y.isZero then .error (divisionByZero "float modulo")
      else .ok (float (x.floorDivMod y).2))
  | .power => some (powerOfFloats x y)
  | _ => none

def ofComplexes (op : BinaryOp) (a b c d : Binary64) : Option (Except Fault Num) :=
  match op with
  | .add => some (.ok (complex (a.add c) (b.add d)))
  | .subtract => some (.ok (complex (a.sub c) (b.sub d)))
  | .multiply => some (.ok (complex ((a.mul c).sub (b.mul d)) ((a.mul d).add (b.mul c))))
  | _ => none

def asFloat : Num → Except Fault Binary64
  | int n => floatOfInt n
  | float x => .ok x
  | complex re _ => .ok re

def isComplex : Num → Bool
  | complex .. => true
  | _ => false

def imaginary : Num → Binary64
  | complex _ im => im
  | _ => .zero false

/-- The result of an operator on two numbers; `none` if there is no such operator. -/
def operate (op : BinaryOp) (m n : Num) : Option (Except Fault Num) :=
  match m, n with
  | int a, int b => ofIntegers op a b
  | m, n =>
    let parts := do return (← m.asFloat, ← n.asFloat)
    let result (x y : Binary64) :=
      if m.isComplex || n.isComplex then ofComplexes op x m.imaginary y n.imaginary
      else ofFloats op x y
    match parts, result (.zero false) (.ofInt 1) with
    | _, none => none
    | .error f, _ => some (.error f)
    | .ok (x, y), _ => result x y

end Num

namespace Value

variable (h : Heap)

def truth : Value → Bool
  | .none | .undefined => false
  | .bool b => b
  | .int n => n ≠ 0
  | .float x => !x.isZero
  | .complex re im => !(re.isZero && im.isZero)
  | .str s => !s.isEmpty
  | .bytes b => !b.isEmpty
  | .tuple items => !items.isEmpty
  | .range a b c => rangeLength a b c ≠ 0
  | .list r => !(h.listItems r).isEmpty
  | .dict r | .view _ r => !(h.dictEntries r).isEmpty
  | .set r => !(h.setItems r).isEmpty
  | _ => true

def unsupported (op : BinaryOp) (a b : Value) : Fault :=
  .type ("unsupported operand type(s) for " ++ op.symbol ++ ": '" ++ a.kindName ++ "' and '" ++
    b.kindName ++ "'")

def cannotJoin (kind : String) (b : Value) : Fault :=
  .type ("can only concatenate " ++ kind ++ " (not \"" ++ b.kindName ++ "\") to " ++ kind)

def joined (a b : Value) : Eval Value := do
  match a, b with
  | .str s, .str t => return .str (s ++ t)
  | .str _, b => Eval.fault (cannotJoin "str" b)
  | .bytes s, .bytes t => return .bytes (s ++ t)
  | .bytes _, b => Eval.typeFault ("can't concat " ++ b.kindName ++ " to bytes")
  | .tuple s, .tuple t => return .tuple (s ++ t)
  | .tuple _, b => Eval.fault (cannotJoin "tuple" b)
  | .list r, .list s => do
    let heap ← get
    Eval.newList (heap.listItems r ++ heap.listItems s)
  | .list _, b => Eval.fault (cannotJoin "list" b)
  | a, b => Eval.fault (unsupported .add a b)

def isSequence : Value → Bool
  | .str _ | .bytes _ | .tuple _ | .list _ => true
  | _ => false

def largestSize : Int := Int.pow 2 63 - 1

def repetitions (size : Nat) (n : Int) : Except Fault Nat :=
  if n > largestSize || n < -largestSize then
    .error (.overflow "cannot fit 'int' into an index-sized integer")
  else if n ≤ 0 || size = 0 then .ok 0
  else if size * n.toNat > Nat.pow 2 31 then .error (.told .memory "")
  else .ok n.toNat

def repeatList {α : Type} (n : Nat) (items : List α) : List α := (List.replicate n items).flatten

def repeated (a : Value) (n : Int) : Eval Value := do
  match a with
  | .str s => do
    let count ← Eval.ofExcept (repetitions s.length n)
    return .str (String.join (List.replicate count s))
  | .bytes b => return .bytes (repeatList (← Eval.ofExcept (repetitions b.length n)) b)
  | .tuple items => return .tuple (repeatList (← Eval.ofExcept (repetitions items.length n)) items)
  | .list r => do
    let items := ((← get).listItems r).toList
    Eval.newList (repeatList (← Eval.ofExcept (repetitions items.length n)) items).toArray
  | a => return a

def multiplied (a b : Value) : Eval Value :=
  let noCount (v : Value) : Eval Value :=
    Eval.typeFault ("can't multiply sequence by non-int of type '" ++ v.kindName ++ "'")
  if a.isSequence then
    match b.integer? with
    | some n => repeated a n
    | .none => noCount b
  else if b.isSequence then
    match a.integer? with
    | some n => repeated b n
    | .none => noCount a
  else Eval.fault (unsupported .multiply a b)

def keep (among : Bool) (zs vs : List Value) : Except Fault (List Value) :=
  vs.filterM fun v => do return (← contains h zs v) = among

/-- The items of two sets combined; `other` is the fault of an operator that sets lack. -/
def combineItems (op : BinaryOp) (xs ys : List Value) (other : Fault) :
    Except Fault (List Value) :=
  match op with
  | .subtract => keep h false ys xs
  | .bitAnd => keep h true ys xs
  | .bitOr => .ok (xs ++ ys)
  | .bitXor => do
    let left ← keep h false ys xs
    let right ← keep h false xs ys
    return left ++ right
  | _ => .error other

/-- Sets are combined with sets, and views that behave like sets with those as well. -/
def combineSets (op : BinaryOp) (a b : Value) : Eval Value := do
  let heap ← get
  match setLike? heap a, setLike? heap b with
  | some xs, some ys =>
    let items ← Eval.ofExcept (combineItems heap op xs ys (unsupported op a b))
    Eval.newSet (← Eval.ofExcept (setOf heap items))
  | _, _ => Eval.fault (unsupported op a b)

def combined (op : BinaryOp) (a b : Value) : Eval Value :=
  match op, a, b with
  | .bitOr, .dict r, .dict s => do
    let heap ← get
    Eval.newDict (← Eval.ofExcept (putEntries heap (heap.dictEntries r) (heap.dictEntries s)))
  | op, a, b => combineSets op a b

def operateOther (op : BinaryOp) (a b : Value) : Eval Value :=
  match op, a with
  | .add, a => joined a b
  | .multiply, a => multiplied a b
  | .remainder, .str s => do return .str (← Eval.ofExcept (Percent.fill (← get) s b))
  | op, a => combined op a b

def operateNumbers (op : BinaryOp) (a b : Value) : Eval Value :=
  match a.number?, b.number? with
  | some m, some n =>
    match m.operate op n with
    | some r => do return (← Eval.ofExcept r).toValue
    | .none => Eval.fault (unsupported op a b)
  | _, _ => operateOther op a b

def operate (op : BinaryOp) (a b : Value) : Eval Value :=
  match a, b, op with
  | .bool x, .bool y, .bitAnd => return .bool (x && y)
  | .bool x, .bool y, .bitOr => return .bool (x || y)
  | .bool x, .bool y, .bitXor => return .bool (x != y)
  | a, b, op => operateNumbers op a b

def operateUnary (op : UnaryOp) (v : Value) : Eval Value := do
  let wrong : Eval Value :=
    Eval.typeFault ("bad operand type for unary " ++ op.symbol ++ ": '" ++ v.kindName ++ "'")
  match op, v.number? with
  | .not, _ => return .bool !(truth (← get) v)
  | .negate, some (.int n) => return .int (-n)
  | .negate, some (.float x) => return .float x.negate
  | .negate, some (.complex re im) => return .complex re.negate im.negate
  | .plus, some n => return n.toValue
  | .invert, some (.int n) => return .int (-n - 1)
  | _, _ => wrong

def identical : Value → Value → Bool
  | .bool a, .bool b => a = b
  | .int a, .int b => a = b
  | .str a, .str b => a = b
  | .bytes a, .bytes b => a = b
  | .tuple [], .tuple [] => true
  | .tuple as, .tuple bs => as.length = bs.length && (as.zip bs).all fun (a, b) => same a b
  | a, b => same a b

end Value

end Stencil
