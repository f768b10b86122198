import Stencil.Fault
import Stencil.Value.Basic

/-!
# Evaluation with a heap

An evaluation changes a heap and ends with a value or halts: with a fault, with a name that the
render data does not have, or because its bound on steps is used up. What it did to the heap
before it halted stays done.

An evaluation runs while a number of calls are under way, of which there may only be so many.
That number decides nothing but whether the evaluation is stopped for too deep a recursion: with
fewer calls under way, one that is not stopped takes the very same course. Every evaluation
carries this law, so that it need not be proved of any function of templates.
-/

namespace Stencil

inductive Halt
  | fault (fault : Fault)
  /-- A name the render data does not have, with the names it has. -/
  | undefinedName (name : String) (available : List String)
  | outOfSteps
deriving DecidableEq, Repr

abbrev Outcome (α : Type) := EStateM.Result Halt Heap α

def Overrun {α : Type} (r : Outcome α) : Prop := ∃ h, r = .error (.fault .tooRecursive) h

structure Eval (α : Type) where
  /-- The course of an evaluation with a number of calls under way. -/
  run : Nat → Heap → Outcome α
  run_of_le : ∀ {m n : Nat} (h : Heap), m ≤ n → Overrun (run n h) ∨ run m h = run n h

namespace Eval

variable {α β : Type}

def steady (f : Heap → Outcome α) : Eval α := ⟨fun _ => f, fun _ _ => .inr rfl⟩

def runOn (r : Outcome α) (f : α → Heap → Outcome β) : Outcome β :=
  match r with
  | .ok a h => f a h
  | .error halt h => .error halt h

theorem runOn_of_le (e : Eval α) (f : α → Eval β) {m n : Nat} (h : Heap) (hmn : m ≤ n) :
    Overrun (runOn (e.run n h) fun a => (f a).run n) ∨
      runOn (e.run m h) (fun a => (f a).run m) = runOn (e.run n h) fun a => (f a).run n := by
  rcases e.run_of_le h hmn with ⟨h', hover⟩ | heq
  · rw [hover]
    exact .inl ⟨h', rfl⟩
  · rw [heq]
    cases e.run n h with
    | ok a h' => exact (f a).run_of_le h' hmn
    | error halt h' => exact .inr rfl

@[always_inline, inline]
def andThen (e : Eval α) (f : α → Eval β) : Eval β where
  run n h :=
    match e.run n h with
    | .ok a h => (f a).run n h
    | .error halt h => .error halt h
  run_of_le h hmn := runOn_of_le e f h hmn

instance : Monad Eval where
  pure a := steady fun h => .ok a h
  bind := andThen

instance : MonadStateOf Heap Eval where
  get := steady fun h => .ok h h
  set h := steady fun _ => .ok () h
  modifyGet f := steady fun h => .ok (f h).1 (f h).2

def handled (r : Outcome α) (handler : Halt → Heap → Outcome α) : Outcome α :=
  match r with
  | .ok a h => .ok a h
  | .error halt h => if halt = .fault .tooRecursive then .error halt h else handler halt h

instance : MonadExceptOf Halt Eval where
  throw halt := steady fun h => .error halt h
  tryCatch e handler :=
    { run := fun n h => handled (e.run n h) fun halt => (handler halt).run n
      run_of_le := by
        intro m n h hmn
        rcases e.run_of_le h hmn with ⟨h', hover⟩ | heq
        · rw [hover]
          exact .inl ⟨h', rfl⟩
        · rw [heq]
          cases e.run n h with
          | ok a h' => exact .inr rfl
          | error halt h' =>
            by_cases hhalt : halt = .fault .tooRecursive
            · exact .inr (by simp only [handled, if_pos hhalt])
            · simpa only [handled, if_neg hhalt] using (handler halt).run_of_le h' hmn }

def fault (f : Fault) : Eval α := throw (.fault f)

def typeFault (message : String) : Eval α := fault (.type message)

def valueFault (message : String) : Eval α := fault (.value message)

def ofExcept : Except Fault α → Eval α
  | .ok a => pure a
  | .error f => fault f

def allocate (c : Cell) : Eval Ref := do
  let r := (← get).cells.size
  modify fun h => { h with cells := h.cells.push c }
  return r

def write (r : Ref) (c : Cell) : Eval Unit :=
  modify fun h => { h with cells := h.cells.setIfInBounds r c }

def newFrame (b : Frame) : Eval Ref := do
  let r := (← get).frames.size
  modify fun h => { h with frames := h.frames.push b }
  return r

def frame (r : Ref) : Eval Frame := do return (← get).frames.getD r []

def bind (r : Ref) (x : Variable) (v : Value) : Eval Unit :=
  modify fun h => { h with frames := h.frames.modify r fun b => b.put x v }

def newData (d : RenderData) : Eval Ref := do
  let r := (← get).data.size
  modify fun h => { h with data := h.data.push d }
  return r

def data (r : Ref) : Eval RenderData := do return (← get).data.getD r default

end Eval

namespace Heap

def listItems (h : Heap) (r : Ref) : Array Value :=
  match h.cells[r]? with
  | some (.list items) => items
  | _ => #[]

def dictEntries (h : Heap) (r : Ref) : Array (Value × Value) :=
  match h.cells[r]? with
  | some (.dict entries) => entries
  | _ => #[]

def setItems (h : Heap) (r : Ref) : Array Value :=
  match h.cells[r]? with
  | some (.set items) => items
  | _ => #[]

def fields (h : Heap) (r : Ref) : List (String × Value) :=
  match h.cells[r]? with
  | some (.object fields) => fields
  | _ => []

def textOf (h : Heap) (r : Ref) : String :=
  match h.cells[r]? with
  | some (.textual s) => s
  | _ => ""

def cursor (h : Heap) (r : Ref) : Cursor :=
  match h.cells[r]? with
  | some (.iterator c) => c
  | _ => .done

def loopState (h : Heap) (r : Ref) : LoopState :=
  match h.cells[r]? with
  | some (.loop s) => s
  | _ => ⟨r, 0, 0, none⟩

def closure? (h : Heap) (r : Ref) : Option Closure :=
  match h.cells[r]? with
  | some (.function c) => some c
  | _ => none

end Heap

namespace Eval

def newList (items : Array Value) : Eval Value := do return .list (← allocate (.list items))

def newDict (entries : Array (Value × Value)) : Eval Value := do
  return .dict (← allocate (.dict entries))

def newSet (items : Array Value) : Eval Value := do return .set (← allocate (.set items))

def newIterator (kind : IteratorKind) (c : Cursor) : Eval Value := do
  return .iterator kind (← allocate (.iterator c))

def deepestCall : Nat := 1000

/-- Runs `act` with `cost` more calls under way. -/
def nested {α : Type} (cost : Nat) (act : Eval α) : Eval α where
  run n h :=
    if n + cost > deepestCall then .error (.fault .tooRecursive) h else act.run (n + cost) h
  run_of_le := by
    intro m n h hmn
    by_cases hn : n + cost > deepestCall
    · exact .inl ⟨h, if_pos hn⟩
    · have hm : ¬ m + cost > deepestCall := by omega
      simpa only [if_neg hn, if_neg hm] using act.run_of_le h (Nat.add_le_add_right hmn cost)

end Eval

end Stencil
