import Stencil.Value.Index

/-!
# Progress of counted loops

What a body can ask about the pass it is in. The number of items is the one at the start of the
loop, while the neighbours of the current item are those that the list has now.
-/

namespace Stencil

namespace LoopState

def itemAt (s : LoopState) (h : Heap) (i : Nat) : Except Fault Value :=
  match (h.listItems s.items)[i]? with
  | some v => .ok v
  | none => .error (.index Value.listWording.outOfRange)

def isLast (s : LoopState) : Bool := s.index + 1 = s.length

def remaining (s : LoopState) : Int := (s.length : Int) - s.index - 1

def previous (s : LoopState) (h : Heap) : Except Fault Value :=
  if s.index = 0 then .ok .none else s.itemAt h (s.index - 1)

def next (s : LoopState) (h : Heap) : Except Fault Value :=
  if s.remaining ≤ 0 then .ok .none else s.itemAt h (s.index + 1)

/-- How many loops there are from the loop `r` outwards; a loop is made after the one around it. -/
def nesting (h : Heap) (r : Ref) : Nat :=
  match (h.loopState r).parent with
  | none => 1
  | some parent => if parent < r then nesting h parent + 1 else 1

def depth (s : LoopState) (h : Heap) : Nat :=
  match s.parent with
  | none => 1
  | some parent => nesting h parent + 1

def parentValue (s : LoopState) : Value :=
  match s.parent with
  | none => .none
  | some r => .loop r

/-- The value of a property of a loop. -/
def property? (s : LoopState) (h : Heap) (name : String) : Option (Except Fault Value) :=
  let number (n : Int) : Option (Except Fault Value) := some (.ok (.int n))
  let answer (b : Bool) : Option (Except Fault Value) := some (.ok (.bool b))
  match name with
  | "index" | "iteration" => number (s.index + 1)
  | "index0" | "_index" => number s.index
  | "first" => answer (s.index = 0)
  | "last" => answer s.isLast
  | "even" => answer ((s.index + 1) % 2 = 0)
  | "odd" => answer ((s.index + 1) % 2 = 1)
  | "length" | "count" | "_length" => number s.length
  | "revindex" => number (s.remaining + 1)
  | "revindex0" | "remaining" => number s.remaining
  | "previtem" => some (s.previous h)
  | "nextitem" => some (s.next h)
  | "depth" => number (s.depth h)
  | "parent" => some (.ok s.parentValue)
  | "_items" => some (.ok (.list s.items))
  | _ => none

/-- The values of a cycle take turns with the passes. -/
def cycle (s : LoopState) (values : List Value) : Value :=
  (values[s.index % values.length]?).getD .none

end LoopState

namespace Eval

def newLoop (items : Ref) (parent : Option Ref) : Eval Ref := do
  let size := ((← get).listItems items).size
  allocate (.loop ⟨items, size, 0, parent⟩)

/-- Moves a loop on to the pass `index`, if its list has an item there. -/
def passOf (loop : Ref) (index : Nat) : Eval (Option Value) := do
  let h ← get
  let s := h.loopState loop
  match (h.listItems s.items)[index]? with
  | none => return none
  | some v =>
    write loop (.loop { s with index })
    return some v

end Eval

end Stencil
