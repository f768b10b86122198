import Stencil.Evaluation.Builtins
import Stencil.Evaluation.Closure
import Stencil.Evaluation.Comprehension
import Stencil.Evaluation.Host
import Stencil.Evaluation.Methods

/-!
# Evaluation of expressions

Operands are evaluated from left to right; `and`, `or`, chained comparisons and conditionals
stop as soon as the answer is known. A name means the innermost variable that is visible at its
place: of a comprehension or anonymous function, then of an enclosing loop of the template, then
an entry of the render data. `Evaluator.run n` evaluates with at most `n` nested steps.
-/

namespace Stencil

namespace Scope

def unassigned (id : String) (isOwn : Bool) : Fault :=
  if isOwn then
    .told .unboundLocal ("cannot access local variable '" ++ Closure.label id ++
      "' where it is not associated with a value")
  else
    .told .name ("cannot access free variable '" ++ Closure.label id ++
      "' where it is not associated with a value in enclosing scope")

def localValue (s : Scope) (id : String) : Eval Value := do
  match s.locals.findIdx? (·.bound.contains id) with
  | none => Eval.fault (.told .name ("name '" ++ Closure.label id ++ "' is not defined"))
  | some i =>
    let frame ← Eval.frame ((s.locals[i]?).elim s.frame (·.frame))
    match frame.get? (.own id) with
    | some v => return v
    | none => Eval.fault (unassigned id (i = 0))

def dataValue (s : Scope) (id : String) : Eval Value := do
  let d ← Eval.data s.data
  match d.names.get? id with
  | some v => return v
  | none =>
    if s.lenient then return .undefined
    else
      -- A name that is missing is compared with all keys, by their lengths first.
      match d.otherKeys.findSome? Builtins.lengthFault? with
      | none => throw (.undefinedName id d.names.keys)
      | some f => Eval.fault f

def loopOf? (s : Scope) (id : String) : Option LoopScope :=
  s.loops.find? fun l => l.names.contains id || (l.counted && id = "loop")

def lookup (s : Scope) (id : String) : Eval Value := do
  if s.locals.any (·.active.contains id) then s.localValue id
  else
    match s.loopOf? id with
    | some l =>
      match (← Eval.frame s.frame).get? (.ofLoop l.position id) with
      | some v => return v
      | none => Eval.fault (unassigned id s.locals.isEmpty)
    | none => s.dataValue id

end Scope

namespace Evaluator

variable (ev : Evaluator)

def literal : Literal → Value
  | .none => .none
  | .true => .bool true
  | .false => .bool false
  | .ellipsis => .ellipsis
  | .int n => .int n
  | .float x => .float x
  | .imaginary x => .complex (.zero false) x
  | .text s => .str s
  | .bytes b => .bytes b

def compareWith (op : CompareOp) (a b : Value) : Eval Bool := do
  let h ← get
  match op with
  | .equal => Eval.ofExcept (Value.equal h a b)
  | .unequal => return !(← Eval.ofExcept (Value.equal h a b))
  | .less => Eval.ofExcept (Value.order h .less a b)
  | .lessEqual => Eval.ofExcept (Value.order h .lessEqual a b)
  | .greater => Eval.ofExcept (Value.order h .greater a b)
  | .greaterEqual => Eval.ofExcept (Value.order h .greaterEqual a b)
  | .identical => return Value.identical a b
  | .distinct => return !Value.identical a b
  | .member => ev.isIn a b
  | .notMember => return !(← ev.isIn a b)

/-- A chain of comparisons: each operand is evaluated once, the first that fails decides. -/
def comparison (s : Scope) (a : Value) : List (CompareOp × Expr) → Eval Value
  | [] => return .bool true
  | (op, e) :: rest => do
    let b ← ev.eval s e
    if ← ev.compareWith op a b then
      if rest.isEmpty then return .bool true else comparison s b rest
    else return .bool false

def boolean (s : Scope) (any : Bool) : List Expr → Eval Value
  | [] => return .bool (!any)
  | [e] => ev.eval s e
  | e :: es => do
    let v ← ev.eval s e
    if Value.truth (← get) v = any then return v else boolean s any es

def converted (conversion : Option Char) (v : Value) : Eval Value := do
  let h ← get
  match conversion with
  | some 'r' => return .str (← Eval.ofExcept (v.written h))
  | some 's' => return .str (← Eval.ofExcept (v.text h))
  | some 'a' => return .str (Value.asciiOnly (← Eval.ofExcept (v.written h)))
  | _ => return v

def textOf : Value → String
  | .str s => s
  | _ => ""

def fragment (s : Scope) : Fragment Expr → Eval String
  | .text t => return t
  | .field e conversion format => do
    let v ← converted conversion (← ev.eval s e)
    let spec ← match format with
      | none => pure ""
      | some f => textOf <$> ev.eval s f
    Eval.ofExcept (v.formatted (← get) spec)

def starOperand : Expr → Option Expr
  | .starred e => some e
  | _ => none

def spreadFault (v : Value) : Fault :=
  .type ("Value after * must be an iterable, not " ++ v.kindName)

def spread (v : Value) (wrong : Value → Fault) : Eval (Array Value) := do
  match ← v.toIterator? with
  | some it => ev.drain it
  | none => Eval.fault (wrong v)

def values (s : Scope) (wrong : Value → Fault) : List Expr → Eval (Array Value)
  | [] => return #[]
  | e :: es => do
    let first ←
      match starOperand e with
      | some e => do ev.spread (← ev.eval s e) wrong
      | none => do pure #[← ev.eval s e]
    return first ++ (← values s wrong es)

def addAll (items vs : List Value) : Eval (List Value) := do
  Eval.ofExcept (vs.foldlM (Value.addItem (← get)) items)

def addEach (s : Scope) (items : List Value) : List Expr → Eval (List Value)
  | [] => return items
  | e :: es => do
    let vs ← ev.values s Value.notIterable [e]
    addEach s (← addAll items vs.toList) es

def display (s : Scope) (kind : Display) (items : List Expr) : Eval Value := do
  match kind with
  | .tuple => return .tuple (← ev.values s spreadFault items).toList
  | .list => Eval.newList (← ev.values s spreadFault items)
  | .set => do
    -- items in front of the first spread one are evaluated before any of them is added
    let front := items.takeWhile fun e => (starOperand e).isNone
    let vs ← ev.values s spreadFault front
    let all ← ev.addEach s (← addAll [] vs.toList) (items.drop front.length)
    let gathered := items.length > 2 && items.all Expr.isConstant
    Eval.newSet (if gathered then Value.arrangeConstants all else Value.arrange all).toArray

def noMapping (v : Value) : Fault := .type ("'" ++ v.kindName ++ "' object is not a mapping")

/-- The pairs of a display up to the next mapping that is spread. -/
def pairsBefore (s : Scope) : List (Option Expr × Expr) →
    Eval (List (Value × Value) × List (Option Expr × Expr))
  | (some k, e) :: rest => do
    let key ← ev.eval s k
    let v ← ev.eval s e
    let (pairs, rest) ← pairsBefore s rest
    return ((key, v) :: pairs, rest)
  | rest => return ([], rest)

def putAll (entries : Array (Value × Value)) (pairs : List (Value × Value)) :
    Eval (Array (Value × Value)) := do
  Eval.ofExcept (Value.putEntries (← get) entries pairs.toArray)

def dictEntries (s : Scope) : Nat → Array (Value × Value) → List (Option Expr × Expr) →
    Eval (Array (Value × Value))
  | 0, entries, _ => return entries
  | fuel + 1, entries, items => do
    let (pairs, rest) ← ev.pairsBefore s items
    let entries ← putAll entries pairs
    match rest with
    | [] => return entries
    | (_, e) :: rest =>
      let v ← ev.eval s e
      match ← entriesOf? v with
      | some more => dictEntries s fuel (← putAll entries more.toList) rest
      | none => Eval.fault (noMapping v)

def functionTitle (h : Heap) : Value → String
  | .builtin b => b.name
  | .host f => f.name
  | .method receiver name => receiver.kindName ++ "." ++ name
  | .unboundMethod b name => b.name ++ "." ++ name
  | .function r => (h.closure? r).elim "" (·.title)
  | v => v.kindName ++ " object"

def argumentFault (title star wanted : String) (v : Value) : Fault :=
  .type (title ++ "() argument after " ++ star ++ " must be " ++ wanted ++ ", not " ++ v.kindName)

def positional (s : Scope) (title : String) (arguments : List Expr) : Eval (Array Value) :=
  match arguments with
  | [.starred e] => do ev.spread (← ev.eval s e) (argumentFault title "*" "an iterable")
  | arguments => ev.values s spreadFault arguments

def mergeKeywords (title : String) (bound : Bindings) (entries : List (Value × Value)) :
    Except Fault Bindings :=
  entries.foldlM
    (fun bound (k, v) =>
      match k with
      | .str key =>
        if (bound.get? key).isSome then
          .error (.type (title ++ "() got multiple values for keyword argument '" ++ key ++ "'"))
        else .ok (bound ++ [(key, v)])
      | _ => .error (.type "keywords must be strings"))
    bound

def keywordArguments (s : Scope) (title : String) (bound : Bindings) :
    List (Option String × Expr) → Eval Bindings
  | [] => return bound
  | (some key, e) :: rest => do
    let v ← ev.eval s e
    keywordArguments s title (← Eval.ofExcept (mergeKeywords title bound [(.str key, v)])) rest
  | (none, e) :: rest => do
    let v ← ev.eval s e
    match ← entriesOf? v with
    | some entries =>
      keywordArguments s title
        (← Eval.ofExcept (mergeKeywords title bound entries.toList)) rest
    | none => Eval.fault (argumentFault title "**" "a mapping" v)

/-- Calls a function with its arguments. -/
def callValue (f : Value) (args : List Value) (keywords : Bindings) : Eval Value := do
  match f with
  | .builtin b | .generic b _ => Builtins.call ev b args keywords
  | .host f => Host.call ev f args keywords
  | .method receiver name => callMethod ev receiver name args keywords
  | .unboundMethod b name => callUnbound ev b name args keywords
  | .undefined => return .undefined
  | .function r =>
    match (← get).closure? r with
    | some c => c.call ev args keywords
    | none => return .none
  | v => Eval.typeFault ("'" ++ v.kindName ++ "' object is not callable")

def function (s : Scope) (parameters : Parameters Expr) (body : Expr) : Eval Value := do
  let defaults ← parameters.defaults.mapM (ev.eval s)
  let keywordDefaults ← parameters.keywordOnly.filterMapM fun (p, d) => do
    match d with
    | some e => return some (p, ← ev.eval s e)
    | none => return none
  let title := s.path ++ ".<locals>.<lambda>"
  return .function (← Eval.allocate
    (.function ⟨parameters, body, s, defaults, keywordDefaults, title⟩))

def comprehensionTitle : Collector → String
  | .list => "<listcomp>"
  | .set => "<setcomp>"
  | .generator => "<genexpr>"

def notAsynchronous (v : Value) : Fault :=
  .type ("'async for' requires an object with __aiter__ method, got " ++ v.kindName)

def sourceOf (s : Scope) (clauses : List (Clause Expr)) : Eval Value := do
  match clauses with
  | [] => return .tuple []
  | c :: _ =>
    let v ← ev.eval s c.source
    if c.asynchronous then Eval.fault (notAsynchronous v) else return v

def collected (s : Scope) (kind : Collector) (element : Expr) (clauses : List (Clause Expr)) :
    Eval Value := do
  let source ← ev.sourceOf s clauses
  let c ← Comprehension.start s (comprehensionTitle kind) (.element element) clauses source
  let items := Eval.nested 1 <| Comprehension.run ev
    (fun items scope => do return items.push (← ev.eval scope element)) mostItems #[] c
  match kind with
  | .list => do Eval.newList (← items)
  | .set =>
    Eval.nested 1 do
      let items ← Comprehension.run ev
        (fun items scope => do
          let v ← ev.eval scope element
          Eval.ofExcept (Value.addItem (← get) items v)) mostItems [] c
      Eval.newSet (Value.arrange items).toArray
  | .generator =>
    let kind := if clauses.any (·.asynchronous) then IteratorKind.asyncGenerator else .generator
    Eval.newIterator kind (.comprehension c)

def collectedDict (s : Scope) (key value : Expr) (clauses : List (Clause Expr)) : Eval Value := do
  let source ← ev.sourceOf s clauses
  let c ← Comprehension.start s "<dictcomp>" (.pair key value) clauses source
  Eval.nested 1 do
    let entries ← Comprehension.run ev
      (fun entries scope => do
        let k ← ev.eval scope key
        let v ← ev.eval scope value
        Eval.ofExcept (Value.putEntry (← get) entries k v)) mostItems #[] c
    Eval.newDict entries

def produced (scope : Scope) : Product → Eval Value
  | .element e => ev.eval scope e
  | .pair k v => do return .tuple [← ev.eval scope k, ← ev.eval scope v]

def changedSize (what : String) : Fault := .runtime (what ++ " changed size during iteration")

def viewItem (kind : ViewKind) (entry : Value × Value) : Value :=
  match kind with
  | .keys => entry.1
  | .values => entry.2
  | .items => .tuple [entry.1, entry.2]

def zipFault (i : Nat) (longer : Bool) : Fault :=
  .value ("zip() argument " ++ toString (i + 1) ++ " is " ++
    (if longer then "longer" else "shorter") ++ " than argument" ++
    (if i = 1 then " 1" else "s 1-" ++ toString i))

/-- One item of each iterator; `none` if one of them is at its end. -/
def zipped (strict : Bool) (i : Nat) : List Value → Eval (Option (List Value))
  | [] => return some []
  | it :: rest => do
    match ← ev.next it with
    | some v =>
      match ← zipped strict (i + 1) rest with
      | some vs => return some (v :: vs)
      | none => return none
    | none =>
      if !strict then return none
      else if i > 0 then Eval.fault (zipFault i false)
      else
        let longer ← rest.zipIdx.findM? fun (it, _) => do return (← ev.next it).isSome
        match longer with
        | some (_, j) => Eval.fault (zipFault (j + 1) true)
        | none => return none

/-- A fault inside a generator; running out of items there is not its end. -/
def insideGenerator (f : Fault) : Fault :=
  if f.kind = .stopIteration then .runtime "generator raised StopIteration" else f

def nextRound (c : Comprehension) : Eval (Option (Value × Comprehension)) :=
  tryCatch
    (Eval.nested 1 do
      match ← Comprehension.advance ev mostItems c with
      | none => return none
      | some c => return some (← ev.produced c.fullScope c.product, c))
    fun
      | .fault f => Eval.fault (insideGenerator f)
      | halt => throw halt

/-- The next item of a cursor, with the cursor behind it. -/
def step : Cursor → Eval (Option (Value × Cursor))
  | .done => return none
  | .list r i => do
    match ((← get).listItems r)[i]? with
    | some v => return some (v, .list r (i + 1))
    | none => return none
  | .listBackward r remaining => do
    match remaining with
    | 0 => return none
    | n + 1 =>
      match ((← get).listItems r)[n]? with
      | some v => return some (v, .listBackward r n)
      | none => return none
  | .items [] => return none
  | .items (v :: rest) => return some (v, .items rest)
  | .set r i size => do
    let items := (← get).setItems r
    if items.size ≠ size then Eval.fault (changedSize "Set")
    match items[i]? with
    | some v => return some (v, .set r (i + 1) size)
    | none => return none
  | .dict kind r i size => do
    let entries := (← get).dictEntries r
    if entries.size ≠ size then Eval.fault (changedSize "dictionary")
    match entries[i]? with
    | some e => return some (viewItem kind e, .dict kind r (i + 1) size)
    | none => return none
  | .dictBackward kind r remaining size => do
    let entries := (← get).dictEntries r
    if entries.size ≠ size then Eval.fault (changedSize "dictionary")
    match remaining with
    | 0 => return none
    | n + 1 =>
      match entries[n]? with
      | some e => return some (viewItem kind e, .dictBackward kind r n size)
      | none => return none
  | .range _ _ 0 => return none
  | .range n step (k + 1) => return some (.int n, .range (n + step) step k)
  | .enumerate inner i => do
    match ← ev.next inner with
    | some v => return some (.tuple [.int i, v], .enumerate inner (i + 1))
    | none => return none
  | .zip [] _ => return none
  | .zip inner strict => do
    match ← ev.zipped strict 0 inner with
    | some vs => return some (.tuple vs, .zip inner strict)
    | none => return none
  | .subscripts v i =>
    tryCatch (do return some (← Value.subscript v (.int i), .subscripts v (i + 1))) fun
      | .fault f =>
        if f.kind = .index || f.kind = .stopIteration then return none else Eval.fault f
      | halt => throw halt
  | .comprehension c => do
    match ← ev.nextRound c with
    | some (v, c) => return some (v, .comprehension c)
    | none => return none
  | .loop r i => do
    match ← Eval.passOf r i with
    | some v => return some (v, .loop r (i + 1))
    | none => return none

/-- Whether an iterator may be asked again after its end, because its sources decide. -/
def asksAgain : Cursor → Bool
  | .enumerate .. | .zip .. => true
  | _ => false

def nextItem (it : Value) : Eval (Option Value) := do
  match it with
  | .iterator _ r =>
    let c := (← get).cursor r
    match ← ev.step c with
    | some (v, c) =>
      Eval.write r (.iterator c)
      return some v
    | none =>
      if !asksAgain c then Eval.write r (.iterator .done)
      return none
  | _ => return none

def evalOption (s : Scope) : Option Expr → Eval Value
  | some e => ev.eval s e
  | none => return .none

/-- The value of an expression, that of its parts given. -/
def expression (s : Scope) : Expr → Eval Value
  | .literal l => return literal l
  | .name id => s.lookup id
  | .interpolated fragments => do return .str (String.join (← fragments.mapM (ev.fragment s)))
  | .display kind items => ev.display s kind items
  | .dict entries => do Eval.newDict (← ev.dictEntries s (entries.length + 1) #[] entries)
  | .starred e => ev.eval s e
  | .unary op e => do Value.operateUnary op (← ev.eval s e)
  | .binary op a b => do
    let v ← ev.eval s a
    Value.operate op v (← ev.eval s b)
  | .boolean any operands => ev.boolean s any operands
  | .compare first rest => do ev.comparison s (← ev.eval s first) rest
  | .conditional test yes no => do
    let t ← ev.eval s test
    if Value.truth (← get) t then ev.eval s yes else ev.eval s no
  | .attribute e label => do
    let v ← ev.eval s e
    if s.lenient then Value.memberLenient v label else Value.member v label
  | .subscript e index => do
    let v ← ev.eval s e
    Value.subscript v (← ev.eval s index)
  | .slice start stop step => do
    let a ← ev.evalOption s start
    let b ← ev.evalOption s stop
    return .slice a b (← ev.evalOption s step)
  | .call f arguments keywords => do
    let f ← ev.eval s f
    let title := functionTitle (← get) f
    let args ← ev.positional s title arguments
    let named ← ev.keywordArguments s title [] keywords
    ev.call f args.toList named
  | .lambda parameters body => ev.function s parameters body
  | .collect kind element clauses => ev.collected s kind element clauses
  | .collectDict key value clauses => ev.collectedDict s key value clauses
  | .assignment _ e | .await e | .yieldedFrom e => ev.eval s e
  | .yielded e => ev.evalOption s e

def exhausted : Evaluator where
  eval _ _ := throw .outOfSteps
  call _ _ _ := throw .outOfSteps
  next _ := throw .outOfSteps

def unfold : Evaluator where
  eval s e := ev.expression s e
  call f args keywords := ev.callValue f args keywords
  next it := ev.nextItem it

/-- Evaluation with at most `n` steps inside one another. -/
def run : Nat → Evaluator
  | 0 => exhausted
  | n + 1 => {
      eval := fun s e => (run n).expression s e
      call := fun f args keywords => (run n).callValue f args keywords
      next := fun it => (run n).nextItem it }

theorem run_succ (n : Nat) : run (n + 1) = (run n).unfold := rfl

/-- More nested steps than the bound on calls lets an evaluation take. -/
def deepestStep : Nat := 1000000

/-- The evaluator of templates. -/
def standard : Evaluator := run deepestStep

end Evaluator

end Stencil
