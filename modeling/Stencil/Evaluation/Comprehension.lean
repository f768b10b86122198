import Stencil.Evaluation.Iterate
import Stencil.Value.Operate
import Stencil.Expr.Outline

/-!
# Comprehensions

A comprehension is a scope of its own. Its first source is evaluated outside; every further
source sees the targets before it, every condition also those of its own clause. `advance`
goes on to the next round in which all conditions hold, so that lists, sets, dictionaries and
generators all take their rounds from one place.
-/

namespace Stencil

namespace Expr

mutual

def storedNames : Expr → List String
  | .name id => [id]
  | .starred target => storedNames target
  | .display _ targets => storedNamesOfAll targets
  | _ => []

def storedNamesOfAll : List Expr → List String
  | [] => []
  | t :: ts => storedNames t ++ storedNamesOfAll ts

end

mutual

/-- All names of an outline. -/
def Outline.names : Outline → List String
  | .node (.name id) parts => id :: namesOfAll parts
  | .node _ parts => namesOfAll parts

def Outline.namesOfAll : List Outline → List String
  | [] => []
  | o :: os => Outline.names o ++ Outline.namesOfAll os

end

def occurringNames (e : Expr) : List String := e.outline.names

end Expr

namespace Comprehension

/-- The scope of a comprehension where the targets of the first `n` clauses are visible. -/
def scopeAfter (c : Comprehension) (n : Nat) : Scope :=
  let active := (c.clauses.take n).flatMap fun k => k.target.occurringNames
  match c.scope.locals with
  | l :: rest => { c.scope with locals := { l with active } :: rest }
  | [] => c.scope

def fullScope (c : Comprehension) : Scope := c.scopeAfter c.clauses.length

/-- Where the variables are kept. -/
def frame (c : Comprehension) : Ref :=
  match c.scope.locals with
  | l :: _ => l.frame
  | [] => c.scope.frame

variable (ev : Evaluator)

def conditionsHold (scope : Scope) : List Expr → Eval Bool
  | [] => return true
  | e :: es => do
    let v ← ev.eval scope e
    if Value.truth (← get) v then conditionsHold scope es else return false

def advance : Nat → Comprehension → Eval (Option Comprehension)
  | 0, _ => throw .outOfSteps
  | fuel + 1, c => do
    match c.iterators with
    | [] => return none
    | it :: outer =>
      match c.clauses[outer.length]? with
      | none => return none
      | some clause =>
        match ← ev.next it with
        | none => advance fuel { c with iterators := outer }
        | some v =>
          let scope := c.scopeAfter (outer.length + 1)
          ev.assign scope (fun id w => Eval.bind c.frame (.own id) w) clause.target v
          if ← conditionsHold ev scope clause.conditions then
            match c.clauses[outer.length + 1]? with
            | none => return some c
            | some inner =>
              let source ← ev.eval scope inner.source
              let it' ← source.toIterator
              advance fuel { c with iterators := it' :: c.iterators }
          else advance fuel c

/-- A comprehension before its first round. -/
def start (scope : Scope) (title : String) (product : Product) (clauses : List (Clause Expr))
    (source : Value) : Eval Comprehension := do
  let frame ← Eval.newFrame []
  let bound := clauses.flatMap fun k => k.target.storedNames
  let it ← source.toIterator
  return {
    product, clauses, iterators := [it]
    scope := { scope with
      locals := ⟨[], bound, frame⟩ :: scope.locals
      path := scope.path ++ ".<locals>." ++ title } }

/-- Runs through all rounds. -/
def run {σ : Type} (step : σ → Scope → Eval σ) : Nat → σ → Comprehension → Eval σ
  | 0, _, _ => throw .outOfSteps
  | fuel + 1, s, c => do
    match ← advance ev Evaluator.mostItems c with
    | none => return s
    | some c => run step fuel (← step s c.fullScope) c

end Comprehension

end Stencil
