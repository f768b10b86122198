import Stencil.Evaluation.Arguments
import Stencil.Evaluation.Iterate

/-!
# Host functions

The functions of the surrounding program that data may carry: links, failures of several
kinds, an echo of the arguments, and the next item of an iterator.
-/

namespace Stencil.Host

open Arguments

def unexpected (title key : String) : Fault :=
  .type (title ++ "() got an unexpected keyword argument '" ++ key ++ "'")

/-- The argument of `url`. -/
def path (args : List Value) (keywords : Bindings) : Except Fault Value :=
  match keywords, args with
  | [], [] => .ok (.str "/")
  | [], [v] => .ok v
  | [], args =>
    .error (.type ("url() takes from 0 to 1 positional arguments but " ++
      toString args.length ++ " were given"))
  | (k, v) :: rest, args =>
    if k ≠ "path" then .error (unexpected "url" k)
    else if !args.isEmpty then .error (.type "url() got multiple values for argument 'path'")
    else
      match rest with
      | [] => .ok v
      | (k, _) :: _ => .error (unexpected "url" k)

def url (args : List Value) (keywords : Bindings) : Except Fault Value := do
  match ← path args keywords with
  | .str s =>
    return .str ("https://example.test/" ++ String.ofList (s.toList.dropWhile (· = '/')))
  | v => throw (.missingAttribute ("'" ++ v.kindName ++ "' object has no attribute 'lstrip'"))

def fails (title : String) (f : Fault) (keywords : Bindings) : Except Fault Value :=
  match keywords with
  | [] => .error f
  | (k, _) :: _ => .error (unexpected title k)

/-- The positional arguments, and behind them the named ones as pairs in order of their names. -/
def echo (args : List Value) (keywords : Bindings) : Eval Value := do
  let sorted := keywords.mergeSort fun a b => decide (a.1 ≤ b.1)
  let pairs ← sorted.mapM fun (k, v) => Eval.newList #[.str k, v]
  Eval.newList (args ++ pairs).toArray

def stopIteration : Fault := .told .stopIteration ""

def next (ev : Evaluator) (args : List Value) (keywords : Bindings) : Eval Value := do
  Eval.ofExcept do
    noKeywords "next" keywords
    between "next" args 1 2
  match args.headD .none with
  | .iterator kind r =>
    match ← ev.next (.iterator kind r), args[1]? with
    | some v, _ => return v
    | none, some v => return v
    | none, none => Eval.fault stopIteration
  | v => Eval.typeFault ("'" ++ v.kindName ++ "' object is not an iterator")

def call (ev : Evaluator) (f : HostFunction) (args : List Value) (keywords : Bindings) :
    Eval Value :=
  match f with
  | .url => Eval.ofExcept (url args keywords)
  | .boom => Eval.ofExcept (fails "boom" (.value "nope") keywords)
  | .boomEmpty => Eval.ofExcept (fails "boom_empty" (.value "") keywords)
  | .boomPad => Eval.ofExcept (fails "boom_pad" (.told .lookup "  padded\n") keywords)
  | .echo => echo args keywords
  | .next => next ev args keywords

end Stencil.Host
