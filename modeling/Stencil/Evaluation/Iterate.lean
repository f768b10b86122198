import Stencil.Text.Search
import Stencil.Value.Attribute

/-!
# Iteration

Iterable values give iterators, which deliver their items one by one. Here is what only needs
to ask an iterator for its next item: collecting, searching and unpacking. The next item itself
may come from an expression, so the evaluator is a parameter.
-/

namespace Stencil

/-- The ways in which evaluation comes back to itself. -/
structure Evaluator where
  eval : Scope → Expr → Eval Value
  call : Value → List Value → Bindings → Eval Value
  /-- The next item of an iterator, or none at its end. -/
  next : Value → Eval (Option Value)

namespace Value

def fitsWord (n : Int) : Bool := -Int.pow 2 63 ≤ n && n < Int.pow 2 63

/-- An iterator over a value, unless it has no items. -/
def toIterator? (v : Value) : Eval (Option Value) := do
  let made (kind : IteratorKind) (c : Cursor) : Eval (Option Value) := do
    return Option.some (← Eval.newIterator kind c)
  let h ← get
  match v with
  | .list r => made .list (.list r 0)
  | .tuple items => made .tuple (.items items)
  | .str s =>
    let kind := if s.toList.all (·.toNat < 128) then IteratorKind.asciiText else .text
    made kind (.items (s.toList.map fun c => .str c.toString))
  | .bytes b => made .bytes (.items (b.map fun c => .int c.toNat))
  | .range a b c =>
    let kind := if fitsWord a && fitsWord b && fitsWord c then IteratorKind.range else .longRange
    made kind (.range a c (rangeLength a b c))
  | .dict r => made (.dict .keys) (.dict .keys r 0 (h.dictEntries r).size)
  | .view kind r => made (.dict kind) (.dict kind r 0 (h.dictEntries r).size)
  | .set r => made .set (.set r 0 (h.setItems r).size)
  | .row _ => made .sequence (.subscripts v 0)
  | .undefined => made .tuple (.items [])
  | .loop r => made .generator (.loop r 0)
  | .iterator .asyncGenerator _ => return Option.none
  | .iterator .. => return Option.some v
  | _ => return Option.none

def notIterable (v : Value) : Fault := .type ("'" ++ v.kindName ++ "' object is not iterable")

def toIterator (v : Value) : Eval Value := do
  match ← toIterator? v with
  | some it => return it
  | .none => Eval.fault (notIterable v)

end Value

namespace Evaluator

variable (ev : Evaluator)

def mostItems : Nat := Nat.pow 2 60

def walk {σ : Type} (it : Value) (step : σ → Value → Eval (ForInStep σ)) : Nat → σ → Eval σ
  | 0, _ => throw .outOfSteps
  | fuel + 1, s => do
    match ← ev.next it with
    | none => return s
    | some v =>
      match ← step s v with
      | .done s => return s
      | .yield s => walk it step fuel s

def drain (it : Value) : Eval (Array Value) :=
  ev.walk it (fun items v => return .yield (items.push v)) mostItems #[]

def collect (v : Value) : Eval (Array Value) := do ev.drain (← v.toIterator)

def takeAtMost (it : Value) (n : Nat) : Eval (List Value) := do
  match n with
  | 0 => return []
  | n + 1 =>
    match ← ev.next it with
    | none => return []
    | some v => return v :: (← takeAtMost it n)

def iteratorToUnpack (v : Value) : Eval Value := do
  match ← v.toIterator? with
  | some it => return it
  | none => Eval.typeFault ("cannot unpack non-iterable " ++ v.kindName ++ " object")

def tooFew (atLeast : Bool) (wanted got : Nat) : Fault :=
  .value ("not enough values to unpack (expected " ++ (if atLeast then "at least " else "") ++
    toString wanted ++ ", got " ++ toString got ++ ")")

def unpackExactly (v : Value) (n : Nat) : Eval (List Value) := do
  let it ← iteratorToUnpack v
  let items ← ev.takeAtMost it n
  if items.length < n then Eval.fault (tooFew false n items.length)
  match ← ev.next it with
  | none => return items
  | some _ =>
    Eval.valueFault ("too many values to unpack (expected " ++ toString n ++ ")")

/-- At least `before + after` items; those between become a list. -/
def unpackAround (v : Value) (before after : Nat) : Eval (List Value) := do
  let it ← iteratorToUnpack v
  let first ← ev.takeAtMost it before
  if first.length < before then Eval.fault (tooFew true (before + after) first.length)
  let rest ← ev.drain it
  if rest.size < after then Eval.fault (tooFew true (before + after) (before + rest.size))
  let middle ← Eval.newList (rest.extract 0 (rest.size - after))
  return first ++ middle :: (rest.extract (rest.size - after) rest.size).toList

def isStarred : Expr → Bool
  | .starred _ => true
  | _ => false

/-- The values for a list of targets, at most one of them starred. -/
def unpack (targets : List Expr) (v : Value) : Eval (List Value) :=
  match targets.findIdx? isStarred with
  | none => ev.unpackExactly v targets.length
  | some i => ev.unpackAround v i (targets.length - i - 1)

def noItemAssignment (v : Value) : Fault :=
  .type ("'" ++ v.kindName ++ "' object does not support item assignment")

def assignItem (container index v : Value) : Eval Unit := do
  let h ← get
  match container with
  | .list r =>
    let w := { Value.listWording with outOfRange := "list assignment index out of range" }
    let i ← Eval.ofExcept (Value.place w (h.listItems r).size index)
    Eval.write r (.list ((h.listItems r).setIfInBounds i v))
  | .dict r =>
    Eval.write r (.dict (← Eval.ofExcept (Value.putEntry h (h.dictEntries r) index v)))
  | container => Eval.fault (noItemAssignment container)

def assignAttribute (container : Value) (name : String) (v : Value) : Eval Unit := do
  match container with
  | .object r =>
    let fields : Bindings := (← get).fields r
    Eval.write r (.object (fields.put name v))
  | container => Eval.fault (Value.noAttribute container name)

mutual

def assign (scope : Scope) (store : String → Value → Eval Unit) : Expr → Value → Eval Unit
  | .name id, v => store id v
  | .starred target, v => assign scope store target v
  | .display _ targets, v => do assignAll scope store targets (← ev.unpack targets v)
  | .subscript container index, v => do
    let c ← ev.eval scope container
    assignItem c (← ev.eval scope index) v
  | .attribute container label, v => do assignAttribute (← ev.eval scope container) label v
  | _, _ => return ()

def assignAll (scope : Scope) (store : String → Value → Eval Unit) :
    List Expr → List Value → Eval Unit
  | target :: targets, v :: vs => do
    assign scope store target v
    assignAll scope store targets vs
  | _, _ => return ()

end

def isAmong (items : List Value) (v : Value) : Eval Bool := do
  Eval.ofExcept (Value.contains (← get) items v)

def inRange (start stop step n : Int) : Bool :=
  let offset := n - start
  let inside := if step > 0 then start ≤ n && n < stop else stop < n && n ≤ start
  inside && Int.emod offset step = 0

def inText (s : String) (v : Value) : Except Fault Bool :=
  match v with
  | .str part => .ok (s.hasPart part)
  | v => .error (.type ("'in <string>' requires string as left operand, not " ++ v.kindName))

def inBytes (b : List UInt8) (v : Value) : Except Fault Bool :=
  match v, v.integer? with
  | .bytes part, _ => .ok (Text.occursIn part b)
  | _, some n =>
    if n < 0 || n > 255 then .error (.value "byte must be in range(0, 256)")
    else .ok (b.contains (UInt8.ofNat n.toNat))
  | v, none => .error (.type ("a bytes-like object is required, not '" ++ v.kindName ++ "'"))

/-- Whether a number is an item of a range; nothing else ever is. -/
def numberInRange (start stop step : Int) (v : Value) : Bool :=
  match v, v.integer? with
  | _, some n => inRange start stop step n
  | .float x, _ =>
    match x.truncate? with
    | some n => x.isInteger && inRange start stop step n
    | none => false
  | _, _ => false

def isIn (v container : Value) : Eval Bool := do
  let h ← get
  match container with
  | .str s => Eval.ofExcept (inText s v)
  | .bytes b => Eval.ofExcept (inBytes b v)
  | .list r => isAmong (h.listItems r).toList v
  | .tuple items => isAmong items v
  | .dict r | .view .keys r =>
    return (← Eval.ofExcept (Value.lookupKey? h (h.dictEntries r) v)).isSome
  | .view .values r => isAmong ((h.dictEntries r).toList.map (·.2)) v
  | .view .items r => isAmong ((h.dictEntries r).toList.map fun (k, w) => .tuple [k, w]) v
  | .set r =>
    match v with
    | .set _ => isAmong (h.setItems r).toList v
    | v => return (← Eval.ofExcept (Value.indexOfKey h v (h.setItems r).toList)).isSome
  | .range a b c => return numberInRange a b c v
  | container =>
    match ← container.toIterator? with
    | none => Eval.typeFault ("argument of type '" ++ container.kindName ++ "' is not iterable")
    | some it =>
      ev.walk it (fun _ w => do
        let h ← get
        if ← Eval.ofExcept (Value.alike h w v) then return .done true else return .yield false)
        mostItems false

def entriesOf? (v : Value) : Eval (Option (Array (Value × Value))) := do
  match v with
  | .dict r => return some ((← get).dictEntries r)
  | .undefined => return some #[]
  | _ => return none

/-- A pair that is an element of what a dictionary is made from. -/
def pairAt (i : Nat) (v : Value) : Eval (Value × Value) := do
  match ← v.toIterator? with
  | none =>
    Eval.typeFault ("cannot convert dictionary update sequence element #" ++ toString i ++
      " to a sequence")
  | some it =>
    let items ← ev.drain it
    match items.toList with
    | [k, w] => return (k, w)
    | items =>
      Eval.valueFault ("dictionary update sequence element #" ++ toString i ++ " has length " ++
        toString items.length ++ "; 2 is required")

/-- Adds the entries of a mapping or of a sequence of pairs to a dictionary. -/
def updateDict (r : Ref) (v : Value) : Eval Unit := do
  let put (k w : Value) : Eval Unit := do
    let h ← get
    Eval.write r (.dict (← Eval.ofExcept (Value.putEntry h (h.dictEntries r) k w)))
  match ← entriesOf? v with
  | some entries => entries.forM fun (k, w) => put k w
  | none =>
    let it ← v.toIterator
    let _ ← ev.walk it (fun i pair => do
      let (k, w) ← ev.pairAt i pair
      put k w
      return .yield (i + 1)) mostItems 0

end Evaluator

end Stencil
