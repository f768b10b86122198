import Stencil.Boundary
import Stencil.Evaluation.Expression
import Stencil.Source

/-!
# The state of a render

An action works on the heap of values, inside a boundary, and leaves notices. It fails with an
error of a template or with a bare fault; a fault that leaves a boundary becomes an error that
tells the template and the line reached there, unless its message cannot be written.
-/

namespace Stencil

inductive Notice
  | warning (message : String)
  | log (message : String)
deriving DecidableEq, Repr

structure World where
  heap : Heap
  boundary : Option Boundary
  notices : Array Notice
deriving Repr

def World.fresh : World := ⟨.empty, none, #[]⟩

/-- Why an action ended early. -/
inductive Stop
  | failed (failure : Failure)
  | outOfSteps
deriving DecidableEq, Repr

abbrev Action := EStateM Stop World

namespace Action

variable {α : Type}

def fault (f : Fault) : Action α := throw (.failed (.fault f))

def reject (e : TemplateError) : Action α := throw (.failed (.template e))

def ofExcept : Except Fault α → Action α
  | .ok a => pure a
  | .error f => fault f

def orReject : Except TemplateError α → Action α
  | .ok a => pure a
  | .error e => reject e

def notice (n : Notice) : Action Unit := modify fun w => { w with notices := w.notices.push n }

def stopOf (b : Option Boundary) : Halt → Stop
  | .fault f => .failed (.fault f)
  | .undefinedName name available => .failed (.template (undefinedAt b name available))
  | .outOfSteps => .outOfSteps

def evaluateUnder (calls : Nat) (e : Eval α) : Action α := fun w =>
  match e.run calls w.heap with
  | .ok a heap => .ok a { w with heap }
  | .error halt heap => .error (stopOf w.boundary halt) { w with heap }

theorem evaluateUnder_ok {calls : Nat} {e : Eval α} {w w₁ : World} {a : α}
    (h : (evaluateUnder calls e).run w = .ok a w₁) : w₁ = { w with heap := w₁.heap } := by
  change evaluateUnder calls e w = .ok a w₁ at h
  unfold evaluateUnder at h
  split at h
  · cases h
    rfl
  · cases h

/-- Evaluates on the heap with no call under way. -/
def evaluate (e : Eval α) : Action α := evaluateUnder 0 e

/-- The heap as it is now. -/
def heap : Action Heap := do return (← get).heap

def markLine (line : Nat) : Action Unit :=
  modify fun w => { w with boundary := w.boundary.map (·.atLine line) }

/-- Turns a fault into an error of the boundary it happened in. If the fault cannot be told, what
goes wrong in telling it leaves the boundary in its place. -/
def reported (b : Boundary) : Stop → Stop
  | .failed (.fault f) =>
    match b.failed f with
    | .ok e => .failed (.template e)
    | .error g => .failed (.fault g)
  | stop => stop

theorem reported_told (b : Boundary) {f : Fault} (h : f.inWriting? = none) :
    reported b (.failed (.fault f)) = .failed (.template (b.failure f)) := by
  simp only [reported, Boundary.failed, h]

theorem reported_untold (b : Boundary) {f g : Fault} (h : f.inWriting? = some g) :
    reported b (.failed (.fault f)) = .failed (.fault g) := by
  simp only [reported, Boundary.failed, h]

/-- Runs an action inside a boundary and comes back to the present one. -/
def within (b : Boundary) (act : Action α) : Action α := fun w =>
  match act.run { w with boundary := some b } with
  | .ok a w' => .ok a { w' with boundary := w.boundary }
  | .error stop w' =>
    .error (reported (w'.boundary.getD b) stop) { w' with boundary := w.boundary }

theorem within_of_ok {b : Boundary} {x : Action α} {w w' : World} {a : α}
    (h : x.run { w with boundary := some b } = .ok a w') :
    (within b x).run w = .ok a { w' with boundary := w.boundary } := by
  change within b x w = _
  unfold within
  rw [h]

theorem within_of_error {b : Boundary} {x : Action α} {w w' : World} {s : Stop}
    (h : x.run { w with boundary := some b } = .error s w') :
    (within b x).run w =
      .error (reported (w'.boundary.getD b) s) { w' with boundary := w.boundary } := by
  change within b x w = _
  unfold within
  rw [h]

def notRendering : Fault := .runtime "Not in a render context"

def here : Action Boundary := do
  match (← get).boundary with
  | some b => return b
  | none => fault notRendering

theorem run_here_bind {β : Type} {w : World} {b : Boundary} (hw : w.boundary = some b)
    (f : Boundary → Action β) : (here >>= f).run w = (f b).run w := by
  simp [here, hw]

end Action

end Stencil
