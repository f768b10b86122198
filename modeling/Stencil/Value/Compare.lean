import Stencil.Value.Eval
import Stencil.Value.Number

/-!
# Equality and order of values

Numbers are compared by value across their kinds, sequences item by item, mappings and sets by
what they hold; everything with an identity of its own equals only itself. Order is defined
between numbers, between texts, between byte strings, between sequences of one kind, and as
inclusion between sets.
-/

namespace Stencil

namespace Value

/-- Whether two values are one and the same, as far as that shows. -/
def same : Value → Value → Bool
  | none, none | ellipsis, ellipsis | undefined, undefined => true
  | list a, list b | dict a, dict b | set a, set b | object a, object b | row a, row b
  | textual a, textual b | loop a, loop b | function a, function b => a = b
  | iterator _ a, iterator _ b => a = b
  | builtin a, builtin b => a = b
  | host a, host b => a = b
  | float a, float b => a = b
  | typeOf a, typeOf b => a = b
  | _, _ => false

def isScalar : Value → Bool
  | none | ellipsis | undefined | bool _ | int _ | float _ | complex .. | str _ | bytes _ => true
  | _ => false

def deepestValue : Nat := 600

abbrev Answer := Except Fault Bool

def tooDeepToCompare : Fault :=
  .told .recursion "maximum recursion depth exceeded in comparison"

def allM (p : α → Answer) : List α → Answer
  | [] => .ok true
  | a :: as => do if ← p a then allM p as else return false

def anyM (p : α → Answer) : List α → Answer
  | [] => .ok false
  | a :: as => do if ← p a then return true else anyM p as

section

variable (h : Heap)

def findEntry (eq : Value → Value → Answer) (k : Value) :
    List (Value × Value) → Except Fault (Option Value)
  | [] => .ok .none
  | (k', v) :: rest => do if ← eq k' k then return some v else findEntry eq k rest

def rangeLength (start stop step : Int) : Nat :=
  if step > 0 then (if start < stop then ((stop - start - 1) / step + 1).toNat else 0)
  else if step < 0 then (if stop < start then ((start - stop - 1) / (-step) + 1).toNat else 0)
  else 0

def setLike? : Value → Option (List Value)
  | .set r => some (h.setItems r).toList
  | .view .keys r => some ((h.dictEntries r).toList.map (·.1))
  | .view .items r => some ((h.dictEntries r).toList.map fun (k, v) => .tuple [k, v])
  | _ => .none

/-- Equality; `eq` compares parts, with the identity of parts decided first. -/
def equalBy (eq : Value → Value → Answer) (a b : Value) : Answer :=
  let part (x y : Value) : Answer := if same x y then .ok true else eq x y
  let sequence (xs ys : List Value) : Answer :=
    if xs.length ≠ ys.length then .ok false
    else allM (fun (x, y) => part x y) (xs.zip ys)
  match a.number?, b.number? with
  | some m, some n => .ok (m.equal n)
  | _, _ =>
    match a, b with
    | .str s, .str t => .ok (s = t)
    | .bytes s, .bytes t => .ok (s = t)
    | .tuple xs, .tuple ys => sequence xs ys
    | .list r, .list s =>
      if r = s then .ok true else sequence (h.listItems r).toList (h.listItems s).toList
    | .dict r, .dict s =>
      let xs := (h.dictEntries r).toList
      let ys := (h.dictEntries s).toList
      if r = s then .ok true
      else if xs.length ≠ ys.length then .ok false
      else
        allM (fun (k, v) => do
          match ← findEntry part k ys with
          | some w => part v w
          | .none => return false) xs
    | .range a b c, .range d e f =>
      let n := rangeLength a b c
      .ok (n = rangeLength d e f && (n = 0 || (a = d && (n = 1 || c = f))))
    | .slice a b c, .slice d e f => sequence [a, b, c] [d, e, f]
    | .view .values r, .view .values s => .ok (r = s)
    | .method r m, .method s n =>
      .ok (m = n && (same r s || (r.isScalar && r.kindName = s.kindName)))
    | .unboundMethod t m, .unboundMethod u n => .ok (t = u && m = n)
    | a, b =>
      match setLike? h a, setLike? h b with
      | some xs, some ys =>
        if xs.length ≠ ys.length then .ok false else allM (fun x => anyM (part x) ys) xs
      | _, _ => .ok (same a b)

def equalWithin : Nat → Value → Value → Answer
  | 0, _, _ => .error tooDeepToCompare
  | fuel + 1, a, b => equalBy h (equalWithin fuel) a b

def equal (a b : Value) : Answer := equalWithin h deepestValue a b

def alike (a b : Value) : Answer := if same a b then .ok true else equal h a b

inductive Order
  | less | lessEqual | greater | greaterEqual
deriving DecidableEq

def Order.symbol : Order → String
  | .less => "<"
  | .lessEqual => "<="
  | .greater => ">"
  | .greaterEqual => ">="

def Order.holds : Order → Ordering → Bool
  | .less, o => o = .lt
  | .lessEqual, o => o ≠ .gt
  | .greater, o => o = .gt
  | .greaterEqual, o => o ≠ .lt

def noOrder (op : Order) (a b : Value) : Fault :=
  .type ("'" ++ op.symbol ++ "' not supported between instances of '" ++ a.kindName ++ "' and '" ++
    b.kindName ++ "'")

def compareLists [Ord α] : List α → List α → Ordering
  | [], [] => .eq
  | [], _ :: _ => .lt
  | _ :: _, [] => .gt
  | a :: as, b :: bs => (compare a b).then (compareLists as bs)

/-- Order of two sequences: that of the first items that differ, else of the lengths. -/
def orderSequences (cmp : Value → Value → Answer) (op : Order) :
    List Value → List Value → Answer
  | a :: as, b :: bs => do
    if ← alike h a b then orderSequences cmp op as bs else cmp a b
  | [], [] => .ok (op.holds .eq)
  | [], _ :: _ => .ok (op.holds .lt)
  | _ :: _, [] => .ok (op.holds .gt)

def includes (xs ys : List Value) : Answer :=
  allM (fun y => anyM (fun x => alike h x y) xs) ys

def orderSets (op : Order) (xs ys : List Value) : Answer :=
  match op with
  | .less => do return xs.length < ys.length && (← includes h ys xs)
  | .lessEqual => do return xs.length ≤ ys.length && (← includes h ys xs)
  | .greater => do return ys.length < xs.length && (← includes h xs ys)
  | .greaterEqual => do return ys.length ≤ xs.length && (← includes h xs ys)

/-- Order of values that are not both numbers; `cmp` compares their items. -/
def orderBy (cmp : Value → Value → Answer) (op : Order) (a b : Value) : Answer :=
  match a, b with
  | .str s, .str t => .ok (op.holds (compare s t))
  | .bytes s, .bytes t => .ok (op.holds (compareLists s t))
  | .tuple xs, .tuple ys => orderSequences h cmp op xs ys
  | .list r, .list s => orderSequences h cmp op (h.listItems r).toList (h.listItems s).toList
  | a, b =>
    match setLike? h a, setLike? h b with
    | some xs, some ys => orderSets h op xs ys
    | _, _ => .error (noOrder op a b)

def orderWithin (op : Order) : Nat → Value → Value → Answer
  | 0, _, _ => .error tooDeepToCompare
  | fuel + 1, a, b =>
    match a.number?, b.number? with
    | some (.complex ..), _ | _, some (.complex ..) => .error (noOrder op a b)
    | some m, some n => .ok ((m.compare? n).any op.holds)
    | _, _ => orderBy h (orderWithin op fuel) op a b

def order (op : Order) (a b : Value) : Answer := orderWithin h op deepestValue a b

end

mutual

/-- The kind of the part that keeps a value from being a key, if there is one. -/
def unhashable? : Value → Option String
  | list _ => some "list"
  | dict _ => some "dict"
  | set _ => some "set"
  | slice .. => some "slice"
  | view .keys _ => some "dict_keys"
  | view .items _ => some "dict_items"
  | tuple items => firstUnhashable? items
  | _ => .none

def firstUnhashable? : List Value → Option String
  | [] => .none
  | v :: vs =>
    match unhashable? v with
    | some kind => some kind
    | .none => firstUnhashable? vs

end

def asKey (v : Value) : Except Fault Unit :=
  match unhashable? v with
  | some kind => .error (.type ("unhashable type: '" ++ kind ++ "'"))
  | .none => .ok ()

end Value

end Stencil
