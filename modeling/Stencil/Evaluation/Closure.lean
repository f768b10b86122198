import Stencil.Evaluation.Arguments
import Stencil.Evaluation.Iterate
import Stencil.Expr.Outline
import Stencil.Text.Quoted

/-!
# Anonymous functions

Arguments meet parameters first by position, then by name; defaults fill what is left. The
parameters are known to callers under the names that `Closure.label` gives them.
-/

namespace Stencil

namespace Closure

/-- The name under which a variable of an expression is reported. -/
def label (name : String) : String := "_l_" ++ name

def plural (n : Nat) : String := if n = 1 then "" else "s"

variable (c : Closure)

/-- Parameters that can be given by position. -/
def places (c : Closure) : List String := c.parameters.positionalOnly ++ c.parameters.positional

def nameable (c : Closure) : List String :=
  c.parameters.positional ++ c.parameters.keywordOnly.map (·.1)

def fault (message : String) : Fault := .type (c.title ++ "() " ++ message)

/-- Puts one argument given by name among those bound already, or among the spare ones. -/
def bindKeyword (bound spare : Bindings) (key : String) (v : Value) :
    Except Fault (Bindings × Bindings) :=
  match c.nameable.find? fun p => label p = key with
  | some p =>
    if (bound.get? p).isSome then
      .error (c.fault ("got multiple values for argument '" ++ key ++ "'"))
    else .ok (bound ++ [(p, v)], spare)
  | none => .ok (bound, spare ++ [(key, v)])

/-- The complaint about a name that belongs to no parameter, or to one that takes none. -/
def misplaced (keywords : Bindings) (key : String) : Fault :=
  let hidden := c.parameters.positionalOnly.filter fun p => (keywords.get? (label p)).isSome
  if hidden.isEmpty then c.fault ("got an unexpected keyword argument '" ++ key ++ "'")
  else
    c.fault ("got some positional-only arguments passed as keyword arguments: '" ++
      ", ".intercalate (hidden.map label) ++ "'")

/-- The complaint about arguments that no place is left for. -/
def tooMany (given : Nat) (bound : Bindings) : Fault :=
  let most := c.places.length
  let least := most - c.defaults.length
  let named := (c.parameters.keywordOnly.filter fun (p, _) => (bound.get? p).isSome).length
  let range :=
    if c.defaults.isEmpty then toString most
    else "from " ++ toString least ++ " to " ++ toString most
  let severalPlaces := most ≠ 1 || !c.defaults.isEmpty
  let also :=
    if named = 0 then ""
    else
      " positional argument" ++ plural given ++ " (and " ++ toString named ++
        " keyword-only argument" ++ plural named ++ ")"
  let verb := if given = 1 && named = 0 then "was" else "were"
  c.fault ("takes " ++ range ++ " positional argument" ++ (if severalPlaces then "s" else "") ++
    " but " ++ toString given ++ also ++ " " ++ verb ++ " given")

def enumerated : List String → String
  | [] => ""
  | [a] => a
  | [a, b] => a ++ " and " ++ b
  | names => ", ".intercalate names.dropLast ++ ", and " ++ names.getLastD ""

def missing (kind : String) (names : List String) : Fault :=
  c.fault ("missing " ++ toString names.length ++ " required " ++ kind ++ " argument" ++
    plural names.length ++ ": " ++ enumerated (names.map fun p => "'" ++ label p ++ "'"))

def placeDefaults (c : Closure) : Bindings :=
  (c.places.drop (c.places.length - c.defaults.length)).zip c.defaults

def fillDefaults (kind : String) (names : List String) (defaults bound : Bindings) :
    Except Fault Bindings :=
  let absent := names.filter fun p => (bound.get? p).isNone
  let lacking := absent.filter fun p => (defaults.get? p).isNone
  if lacking.isEmpty then
    .ok (bound ++ absent.filterMap fun p => (defaults.get? p).map (p, ·))
  else .error (c.missing kind lacking)

def single (c : Closure) : List String := c.places ++ c.parameters.keywordOnly.map (·.1)

def inOrder (bound : Bindings) : Bindings :=
  c.single.filterMap fun p => (bound.get? p).map (p, ·)

/-- What the parameters are bound to, and the arguments left for those that take the rest. -/
structure Call where
  bound : Bindings
  rest : List Value
  spare : Bindings

/-- Takes one argument given by name after others; only a function that collects such
arguments may have spare ones. -/
def takeKeyword (keywords : Bindings) (taken : Bindings × Bindings) (given : String × Value) :
    Except Fault (Bindings × Bindings) := do
  let taken ← c.bindKeyword taken.1 taken.2 given.1 given.2
  if c.parameters.restKeywords.isNone && !taken.2.isEmpty then
    throw (c.misplaced keywords given.1)
  else return taken

def bind (args : List Value) (keywords : Bindings) : Except Fault Call := do
  let places := c.places
  let (bound, spare) ← keywords.foldlM (c.takeKeyword keywords) (places.zip args, [])
  if args.length > places.length && c.parameters.rest.isNone then
    throw (c.tooMany args.length bound)
  else
    let bound ← c.fillDefaults "positional" places c.placeDefaults bound
    let bound ← c.fillDefaults "keyword-only" (c.parameters.keywordOnly.map (·.1))
      c.keywordDefaults bound
    return ⟨c.inOrder bound, args.drop places.length, spare⟩

/-- The variables of a call. -/
def frameOf (call : Call) : Eval Frame := do
  let rest := c.parameters.rest.toList.map fun p => (p, Value.tuple call.rest)
  let spare ← c.parameters.restKeywords.toList.mapM fun p => do
    let d ← Eval.newDict (call.spare.map fun (k, v) => (Value.str k, v)).toArray
    return (p, d)
  return (call.bound ++ rest ++ spare).map fun (p, v) => (Variable.own p, v)

/-- Where the body of a function is evaluated, given its variables. -/
def bodyScope (frame : Ref) : Scope :=
  let names := c.parameters.names
  { c.scope with locals := ⟨names, names, frame⟩ :: c.scope.locals, path := c.title }

def call (ev : Evaluator) (args : List Value) (keywords : Bindings) : Eval Value := do
  let bound ← Eval.ofExcept (c.bind args keywords)
  let frame ← Eval.newFrame (← c.frameOf bound)
  Eval.nested 1 (ev.eval (c.bodyScope frame) c.body)

end Closure

end Stencil
