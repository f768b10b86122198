import Stencil.Value.Index

/-!
# Data

Render data, shared data and globals as they come from outside. Taking a datum into a heap
gives every container in it an identity of its own.
-/

namespace Stencil

inductive Datum
  | none
  | bool (b : Bool)
  | int (n : Int)
  | float (x : Binary64)
  | str (s : String)
  | bytes (b : List UInt8)
  | list (items : List Datum)
  | tuple (items : List Datum)
  | dict (entries : List (Datum × Datum))
  | range (start stop step : Int)
  | object (fields : List (String × Datum))
  /-- An object that is subscripted like a dictionary. -/
  | row (fields : List (String × Datum))
  /-- An object with a text. -/
  | textual (s : String)
  /-- An iterator that is used up once. -/
  | iterator (items : List Datum)
  | host (f : HostFunction)
deriving Repr, Inhabited

namespace Datum

mutual

/-- The value of a datum in the heap. -/
def load : Datum → Eval Value
  | .none => return .none
  | .bool b => return .bool b
  | .int n => return .int n
  | .float x => return .float x
  | .str s => return .str s
  | .bytes b => return .bytes b
  | .list items => do Eval.newList (← loadAll items).toArray
  | .tuple items => do return .tuple (← loadAll items)
  | .dict entries => do
    let pairs ← loadEntries entries
    Eval.newDict (← Eval.ofExcept (Value.putEntries (← get) #[] pairs.toArray))
  | .range a b c => return .range a b c
  | .object fields => do return .object (← Eval.allocate (.object (← loadFields fields)))
  | .row fields => do
    let entries := (← loadFields fields).map fun (k, v) => (Value.str k, v)
    return .row (← Eval.allocate (.dict entries.toArray))
  | .textual s => do return .textual (← Eval.allocate (.textual s))
  | .iterator items => do
    let r ← Eval.allocate (.list (← loadAll items).toArray)
    Eval.newIterator .list (.list r 0)
  | .host f => return .host f

def loadAll : List Datum → Eval (List Value)
  | [] => return []
  | d :: ds => do
    let v ← load d
    return v :: (← loadAll ds)

def loadEntries : List (Datum × Datum) → Eval (List (Value × Value))
  | [] => return []
  | e :: es => do
    let p ← loadEntry e
    return p :: (← loadEntries es)

def loadEntry : Datum × Datum → Eval (Value × Value)
  | (k, d) => do
    let key ← load k
    return (key, ← load d)

def loadFields : List (String × Datum) → Eval Bindings
  | [] => return []
  | f :: fs => do
    let b ← loadField f
    return b :: (← loadFields fs)

def loadField : String × Datum → Eval (String × Value)
  | (name, d) => do return (name, ← load d)

end

end Datum

end Stencil
