import Stencil.Fault
import Stencil.Value.Kind

/-!
# Numbers among values

Truth values count as integers. Arithmetic of mixed numbers is done in the wider kind, but
integers and floating-point numbers are compared exactly.
-/

namespace Stencil

inductive Num
  | int (n : Int)
  | float (x : Binary64)
  | complex (re im : Binary64)
deriving DecidableEq, Repr

def Value.number? : Value → Option Num
  | .bool b => some (.int (if b then 1 else 0))
  | .int n => some (.int n)
  | .float x => some (.float x)
  | .complex re im => some (.complex re im)
  | _ => .none

def Value.integer? : Value → Option Int
  | .bool b => some (if b then 1 else 0)
  | .int n => some n
  | _ => .none

namespace Num

def toValue : Num → Value
  | int n => .int n
  | float x => .float x
  | complex re im => .complex re im

/-- The nearest floating-point number, if the integer is not too large for one. -/
def floatOfInt (n : Int) : Except Fault Binary64 :=
  let x := Binary64.ofInt n
  if x.isInfinite then .error (.overflow "int too large to convert to float") else .ok x

def compare? : Num → Num → Option Ordering
  | int a, int b => some (compare a b)
  | int a, float b => (b.compareInt? a).map Ordering.swap
  | float a, int b => a.compareInt? b
  | float a, float b => a.compare? b
  | _, _ => none

def sameFloat (a b : Binary64) : Bool := a.compare? b = some .eq

def equal : Num → Num → Bool
  | complex a b, complex c d => sameFloat a c && sameFloat b d
  | complex a b, n => b.isZero && compare? (float a) n = some .eq
  | n, complex a b => b.isZero && compare? n (float a) = some .eq
  | a, b => compare? a b = some .eq

def isZero : Num → Bool
  | int n => n = 0
  | float x => x.isZero
  | complex re im => re.isZero && im.isZero

end Num

end Stencil
