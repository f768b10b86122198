import Stencil.Value.Number

/-!
# The order of sets

A set keeps its items in a table with open addressing: where an item stands follows from its hash
and from the items that came before it, and the items are met in the order of their places.
Numbers, and tuples of them, have a fixed hash. Sets with other items are met in the order of
insertion.
-/

namespace Stencil

namespace Hash

def modulus : Nat := Nat.pow 2 61 - 1

def ofSigned (negative : Bool) (n : Nat) : UInt64 :=
  let h : Int := if negative then -(n : Int) else n
  UInt64.ofInt (if h = -1 then -2 else h)

def ofInt (n : Int) : UInt64 := ofSigned (decide (n < 0)) (n.natAbs % modulus)

def ofFloat? (x : Binary64) : Option UInt64 :=
  match x.decode with
  | .nan => none
  | .infinite negative => some (ofSigned negative 314159)
  | .finite negative m q =>
    some (ofSigned negative (m * Nat.pow 2 (q % 61).toNat % modulus))

def rotate (x : UInt64) : UInt64 := (x <<< 31) ||| (x >>> 33)

def ofParts (parts : List UInt64) : UInt64 :=
  let start : UInt64 := 2870177450012600261
  let mixed := parts.foldl
    (fun acc lane => rotate (acc + lane * 14029467366897019727) * 11400714785074694791) start
  let h := mixed + (UInt64.ofNat parts.length ^^^ (start ^^^ 3527539))
  if h = UInt64.ofInt (-1) then 1546275796 else h

end Hash

namespace Value

mutual

def hash? : Value → Option UInt64
  | .bool b => some (Hash.ofInt (if b then 1 else 0))
  | .int n => some (Hash.ofInt n)
  | .float x => Hash.ofFloat? x
  | .tuple items => (hashes? items).map Hash.ofParts
  | _ => .none

def hashes? : List Value → Option (List UInt64)
  | [] => some []
  | v :: vs => do return (← hash? v) :: (← hashes? vs)

end

end Value

/-- Items with their hashes, at places of a table; its size is a power of two. -/
structure SetTable where
  places : Array (Option (UInt64 × Value))
  used : Nat

namespace SetTable

def ofSize (n : Nat) : SetTable := ⟨Array.replicate n none, 0⟩

def leastSize : Nat := 8

def empty : SetTable := ofSize leastSize

def content (t : SetTable) : List (UInt64 × Value) := t.places.toList.filterMap id

def items (t : SetTable) : List Value := t.content.map (·.2)

def isFree (t : SetTable) (i : Nat) : Bool := (t.places.getD i none).isNone

/-- Places are tried in short runs; the next run begins where the rest of the hash leads. -/
def freePlace (t : SetTable) : Nat → Nat → Nat → Nat
  | 0, _, i => i
  | fuel + 1, rest, i =>
    let run := if i + 9 < t.places.size then 10 else 1
    match (List.range run).find? fun j => t.isFree (i + j) with
    | some j => i + j
    | none => freePlace t fuel (rest / 32) ((i * 5 + 1 + rest / 32) % t.places.size)

/-- Puts an item at a free place. -/
def place (t : SetTable) (e : UInt64 × Value) : SetTable :=
  let h := e.1.toNat
  let i := t.freePlace (t.places.size + 16) h (h % t.places.size)
  ⟨t.places.setIfInBounds i (some e), t.used + 1⟩

def sizeAbove (n : Nat) : Nat := Nat.pow 2 (max 3 (Nat.log2 n + 1))

def resized (t : SetTable) (n : Nat) : SetTable := t.content.foldl place (ofSize (sizeAbove n))

def add (t : SetTable) (e : UInt64 × Value) : SetTable :=
  let t := t.place e
  if t.used * 5 < (t.places.size - 1) * 3 then t
  else t.resized (if t.used > 50000 then t.used * 2 else t.used * 4)

def ofList (es : List (UInt64 × Value)) : SetTable := es.foldl add empty

def copied (t : SetTable) : SetTable :=
  let new := if t.used * 5 < (leastSize - 1) * 3 then empty else ofSize (sizeAbove (t.used * 2))
  if new.places.size = t.places.size then t else t.content.foldl place new

end SetTable

namespace Value

def hashed? (items : List Value) : Option (List (UInt64 × Value)) :=
  items.mapM fun v => v.hash?.map (·, v)

def arrange (items : List Value) : List Value :=
  match hashed? items with
  | some es => (SetTable.ofList es).items
  | .none => items

/-- The order of a set that is written with constants: those are gathered beforehand, twice. -/
def arrangeConstants (items : List Value) : List Value :=
  match hashed? items with
  | some es => (SetTable.ofList (SetTable.ofList es).content).copied.items
  | .none => items

end Value

end Stencil
