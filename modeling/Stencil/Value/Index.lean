import Stencil.Value.Keyed
import Stencil.Value.Show

/-!
# Subscripts

Sequences are indexed by integers, from the end by negative ones, or cut by slices; dictionaries
are indexed by keys. A slice is brought into the bounds of its sequence before it is followed.
-/

namespace Stencil

structure Cut where
  start : Int
  stop : Int
  step : Int
deriving DecidableEq, Repr

namespace Cut

def count (c : Cut) : Nat := Value.rangeLength c.start c.stop c.step

/-- The places a slice passes, in its order. -/
def places (c : Cut) : List Nat :=
  (List.range c.count).map fun (i : Nat) => (c.start + i * c.step).toNat

def apply {α : Type} (c : Cut) (items : Array α) : List α :=
  c.places.filterMap (items[·]?)

end Cut

namespace Value

def sliceBound : Value → Except Fault (Option Int)
  | .none => .ok .none
  | v =>
    match v.integer? with
    | some n => .ok (some n)
    | .none =>
      .error (.type "slice indices must be integers or None or have an __index__ method")

def boundWithin (size : Nat) (low high n : Int) : Int :=
  max low (min high (if n < 0 then n + size else n))

def cut (size : Nat) (start stop step : Value) : Except Fault Cut := do
  let step := (← sliceBound step).getD 1
  if step = 0 then throw (.value "slice step cannot be zero")
  let start ← sliceBound start
  let stop ← sliceBound stop
  let low : Int := if step < 0 then -1 else 0
  let high : Int := if step < 0 then (size : Int) - 1 else size
  let bound (n : Option Int) (usual : Int) : Int :=
    match n with
    | some n => boundWithin size low high n
    | .none => usual
  return ⟨bound start (if step < 0 then high else low), bound stop (if step < 0 then low else high),
    step⟩

/-- How a kind of sequence words its complaints about subscripts. -/
structure Wording where
  outOfRange : String
  wrongKind : String → String

def Wording.indices (name : String) (kind : String) : String :=
  name ++ " indices must be integers or slices, not " ++ kind

def listWording : Wording := ⟨"list index out of range", Wording.indices "list"⟩
def tupleWording : Wording := ⟨"tuple index out of range", Wording.indices "tuple"⟩
def bytesWording : Wording := ⟨"index out of range", Wording.indices "byte"⟩
def rangeWording : Wording := ⟨"range object index out of range", Wording.indices "range"⟩
def textWording : Wording :=
  ⟨"string index out of range", fun kind => "string indices must be integers, not '" ++ kind ++ "'"⟩

def largestIndex : Int := Int.pow 2 63 - 1

/-- The place that an index means in a sequence of `size` items. -/
def place (w : Wording) (size : Nat) (index : Value) : Except Fault Nat :=
  match index.integer? with
  | .none => .error (.type (w.wrongKind index.kindName))
  | some n =>
    if n > largestIndex || n < -largestIndex - 1 then
      .error (.index "cannot fit 'int' into an index-sized integer")
    else
      let i := if n < 0 then n + size else n
      if i < 0 || i ≥ size then .error (.index w.outOfRange) else .ok i.toNat

def select {α : Type} (w : Wording) (items : Array α) (index : Value) :
    Except Fault (Sum α (List α)) :=
  match index with
  | .slice a b c => do return .inr ((← cut items.size a b c).apply items)
  | index => do
    match items[← place w items.size index]? with
    | some a => return .inl a
    | .none => throw (.index w.outOfRange)

def rangeItem (start step : Int) (i : Nat) : Int := start + i * step

def selectRange (start stop step : Int) (index : Value) : Except Fault Value :=
  let size := rangeLength start stop step
  match index with
  | .slice a b c => do
    let c ← cut size a b c
    return .range (start + c.start * step) (start + c.stop * step) (c.step * step)
  | index =>
    match index.integer? with
    | .none => .error (.type (rangeWording.wrongKind index.kindName))
    | some n =>
      let i := if n < 0 then n + size else n
      if i < 0 || i ≥ size then .error (.index rangeWording.outOfRange)
      else .ok (.int (rangeItem start step i.toNat))

def missingKey (h : Heap) (k : Value) : Except Fault Value :=
  match written h k with
  | .ok text => .error (.key text)
  | .error f => .error (.unwrittenKey f.kind f.message)

def notSubscriptable (v : Value) : Fault :=
  match v with
  | .builtin b =>
    if b.isKind then .type ("type '" ++ b.name ++ "' is not subscriptable")
    else .type ("'" ++ v.kindName ++ "' object is not subscriptable")
  | v => .type ("'" ++ v.kindName ++ "' object is not subscriptable")

def subscript (v index : Value) : Eval Value := do
  let heap ← get
  match v with
  | .list r =>
    match ← Eval.ofExcept (select listWording (heap.listItems r) index) with
    | .inl a => return a
    | .inr items => Eval.newList items.toArray
  | .tuple items =>
    match ← Eval.ofExcept (select tupleWording items.toArray index) with
    | .inl a => return a
    | .inr items => return .tuple items
  | .str s =>
    match ← Eval.ofExcept (select textWording s.toList.toArray index) with
    | .inl c => return .str c.toString
    | .inr cs => return .str (String.ofList cs)
  | .bytes b =>
    match ← Eval.ofExcept (select bytesWording b.toArray index) with
    | .inl c => return .int c.toNat
    | .inr cs => return .bytes cs
  | .range a b c => Eval.ofExcept (selectRange a b c index)
  | .dict r | .row r =>
    match ← Eval.ofExcept (lookupKey? heap (heap.dictEntries r) index) with
    | some w => return w
    | .none => Eval.ofExcept (missingKey heap index)
  | .undefined => return .undefined
  | .builtin .list => return .generic .list index
  | .builtin .dict => return .generic .dict index
  | v => Eval.fault (notSubscriptable v)

end Value

end Stencil
