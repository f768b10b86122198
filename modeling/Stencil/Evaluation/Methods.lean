import Stencil.Evaluation.Arguments
import Stencil.Evaluation.Iterate
import Stencil.Text.Casing

/-!
# Methods

What the methods of texts, lists, dictionaries, sets, tuples, ranges and loops do.
-/

namespace Stencil

open Arguments

namespace TextMethod

def wantText (v : Value) : Except Fault (List Char) :=
  match v with
  | .str s => .ok s.toList
  | v => .error (.type ("must be str, not " ++ v.kindName))

def splitBlanks : Option Nat → Nat → List Char → List (List Char)
  | _, 0, _ => []
  | limit, fuel + 1, s =>
    let s := s.dropWhile Text.isBlank
    if s.isEmpty then []
    else if limit = some 0 then [s]
    else
      let word := s.takeWhile fun c => !Text.isBlank c
      word :: splitBlanks (limit.map (· - 1)) fuel (s.drop word.length)

def limitOf (n : Int) : Option Nat := if n < 0 then none else some n.toNat

def split (s : List Char) (args : List Value) (keywords : Bindings) : Eval Value := do
  Eval.ofExcept do
    atMost "split" args keywords 2
    onlyKeywords "split" keywords ["sep", "maxsplit"]
  let separator := (args[0]?).or (keywords.get? "sep") |>.getD .none
  let limit ← Eval.ofExcept (integer ((args[1]?).or (keywords.get? "maxsplit") |>.getD (.int (-1))))
  let pieces ←
    match separator with
    | .none => pure (splitBlanks (limitOf limit) (s.length + 1) s)
    | .str sep =>
      if sep.isEmpty then Eval.valueFault "empty separator"
      else pure (Text.splitOn sep.toList (limitOf limit) s)
    | v => Eval.typeFault ("must be str or None, not " ++ v.kindName)
  Eval.newList (pieces.map fun p => Value.str (String.ofList p)).toArray

inductive Ends
  | front | back | both
deriving DecidableEq

def stripped (ends : Ends) (p : Char → Bool) (s : List Char) : List Char :=
  let s := if ends = .back then s else s.dropWhile p
  if ends = .front then s else Text.dropEndWhile p s

def strip (name : String) (ends : Ends) (s : List Char) (args : List Value) :
    Except Fault Value := do
  between name args 0 1
  match args.headD .none with
  | .none => return .str (String.ofList (stripped ends Text.isBlank s))
  | .str cs => return .str (String.ofList (stripped ends (cs.toList.contains ·) s))
  | _ => throw (.type (name ++ " arg must be None or str"))

/-- The part of a text between two optional bounds, with its offset; none if the bounds cross. -/
def window (s : List Char) (start stop : Value) : Except Fault (Option (Nat × List Char)) := do
  let start ← Value.sliceBound start
  let stop ← Value.sliceBound stop
  let clamp (n : Int) : Int := max 0 (if n < 0 then n + s.length else n)
  let a := clamp (start.getD 0)
  let b := min (clamp (stop.getD s.length)) s.length
  return if a > b then none else some (a.toNat, (s.take b.toNat).drop a.toNat)

def searchArguments (name : String) (args : List Value) : Except Fault (Value × Value × Value) :=
  match args with
  | [] => .error (.type (name ++ "() takes at least 1 argument (0 given)"))
  | [a] => .ok (a, .none, .none)
  | [a, b] => .ok (a, b, .none)
  | [a, b, c] => .ok (a, b, c)
  | args =>
    .error (.type (name ++ "() takes at most 3 arguments (" ++ toString args.length ++ " given)"))

/-- Offset of a part inside the bounds, from the front or from the back. -/
def find (name : String) (fromBack : Bool) (s : List Char) (args : List Value) :
    Except Fault (Option Nat) := do
  let (part, start, stop) ← searchArguments name args
  let w ← window s start stop
  let part ← wantText part
  return w.bind fun (offset, t) =>
    ((if fromBack then Text.lastIndexOf? part t else Text.indexOf? part t)).map (· + offset)

def count (s : List Char) (args : List Value) : Except Fault Nat := do
  let (part, start, stop) ← searchArguments "count" args
  let w ← window s start stop
  let part ← wantText part
  return w.elim 0 fun (_, t) => Text.countOf part t

/-- Whether the text inside the bounds begins, or ends, with a part or with one of several. -/
def isAtEnd (name : String) (front : Bool) (s : List Char) (args : List Value) :
    Except Fault Bool := do
  let (part, start, stop) ← searchArguments name args
  let w ← window s start stop
  let test (p : List Char) : Bool := w.any fun (_, t) =>
    if front then p.isPrefixOf t else p.reverse.isPrefixOf t.reverse
  match part with
  | .str p => return test p.toList
  | .tuple parts =>
    Value.anyM (fun p =>
      match p with
      | .str p => .ok (test p.toList)
      | v =>
        .error (.type ("tuple for " ++ name ++ " must only contain str, not " ++ v.kindName)))
      parts
  | v =>
    throw (.type (name ++ " first arg must be str or a tuple of str, not " ++ v.kindName))

/-- The argument of `replace` with the number `i`, which has to be a text. -/
def replaceArgument (i : Nat) (v : Value) : Except Fault (List Char) :=
  match v with
  | .str t => .ok t.toList
  | v =>
    .error (.type ("replace() argument " ++ toString i ++ " must be str, not " ++
      v.shortKindName))

def replace (s : List Char) (args : List Value) : Except Fault Value := do
  between "replace" args 2 3
  let old ← replaceArgument 1 (args.getD 0 .none)
  let new ← replaceArgument 2 (args.getD 1 .none)
  let limit ← integer (args.getD 2 (.int (-1)))
  return .str (String.ofList (Text.replaceAll old new (limitOf limit) s))

def join (ev : Evaluator) (s : String) (v : Value) : Eval Value := do
  match ← v.toIterator? with
  | none => Eval.typeFault "can only join an iterable"
  | some it =>
    let items ← ev.drain it
    let parts ← items.toList.zipIdx.mapM fun (item, i) =>
      match item with
      | .str t => pure t
      | item =>
        Eval.typeFault ("sequence item " ++ toString i ++ ": expected str instance, " ++
          item.kindName ++ " found")
    return .str (s.intercalate parts)

def mapping? : String → Option (List Char → List Char)
  | "upper" => some Text.upper
  | "lower" => some Text.lower
  | "title" => some Text.title
  | "capitalize" => some Text.capitalize
  | _ => none

def substringMissing : Fault := .value "substring not found"

def call (ev : Evaluator) (s : String) (name : String) (args : List Value) (keywords : Bindings) :
    Eval Value := do
  let title := "str." ++ name
  let cs := s.toList
  if name ≠ "split" then Eval.ofExcept (noKeywords title keywords)
  let offset (n : Option Nat) : Value := .int (n.elim (-1) (·))
  let found (n : Option Nat) : Eval Value :=
    match n with
    | some n => return .int n
    | none => Eval.fault substringMissing
  match mapping? name with
  | some f =>
    Eval.ofExcept (nothing title args)
    return .str (String.ofList (f cs))
  | none =>
    match name with
    | "split" => split cs args keywords
    | "strip" => Eval.ofExcept (strip name .both cs args)
    | "lstrip" => Eval.ofExcept (strip name .front cs args)
    | "rstrip" => Eval.ofExcept (strip name .back cs args)
    | "find" => return offset (← Eval.ofExcept (find name false cs args))
    | "rfind" => return offset (← Eval.ofExcept (find name true cs args))
    | "index" => found (← Eval.ofExcept (find name false cs args))
    | "rindex" => found (← Eval.ofExcept (find name true cs args))
    | "count" => return .int (← Eval.ofExcept (count cs args))
    | "startswith" => return .bool (← Eval.ofExcept (isAtEnd name true cs args))
    | "endswith" => return .bool (← Eval.ofExcept (isAtEnd name false cs args))
    | "replace" => Eval.ofExcept (replace cs args)
    | "join" => join ev s (← Eval.ofExcept (one title args))
    | _ => Eval.fault (Value.noAttribute (.str s) name)

end TextMethod

/-- The first place of an equal item between two bounds. -/
def indexIn (items : List Value) (args : List Value) (missing : Value → Except Fault Fault) :
    Eval Value := do
  Eval.ofExcept (between "index" args 1 3)
  let h ← get
  let bound (v : Value) : Except Fault Int :=
    match v.integer? with
    | some n => .ok (max 0 (if n < 0 then n + items.length else n))
    | none => .error (.type "slice indices must be integers or have an __index__ method")
  let start ← Eval.ofExcept (bound (args.getD 1 (.int 0)))
  let stop ← Eval.ofExcept (bound (args.getD 2 (.int items.length)))
  let v := args.headD .none
  let places := items.zipIdx.filter fun (_, i) => start ≤ i && i < stop
  let found ← Eval.ofExcept (places.findM? fun (w, _) => Value.alike h w v)
  match found with
  | some (_, i) => return .int i
  | none => Eval.fault (← Eval.ofExcept (missing v))

def countIn (items : List Value) (v : Value) : Eval Value := do
  let h ← get
  let found ← Eval.ofExcept (items.filterM fun w => Value.alike h w v)
  return .int found.length

namespace ListMethod

def removeAt (r : Ref) (i : Nat) : Eval Unit := do
  Eval.write r (.list (((← get).listItems r).eraseIdxIfInBounds i))

def pop (r : Ref) (args : List Value) : Eval Value := do
  Eval.ofExcept (between "pop" args 0 1)
  let items := (← get).listItems r
  let n ← Eval.ofExcept (integer (args.headD (.int (-1))))
  if items.isEmpty then Eval.fault (.index "pop from empty list")
  let i := if n < 0 then n + items.size else n
  if i < 0 || i ≥ items.size then Eval.fault (.index "pop index out of range")
  removeAt r i.toNat
  return items.getD i.toNat .none

def insert (r : Ref) (args : List Value) : Eval Value := do
  Eval.ofExcept (between "insert" args 2 2)
  let items := ((← get).listItems r).toList
  let n ← Eval.ofExcept (integer (args.headD .none))
  let i := (min (max 0 (if n < 0 then n + items.length else n)) items.length).toNat
  Eval.write r (.list (items.take i ++ args.getD 1 .none :: items.drop i).toArray)
  return .none

def remove (r : Ref) (v : Value) : Eval Value := do
  let h ← get
  let items := h.listItems r
  match ← Eval.ofExcept (items.toList.zipIdx.findM? fun (w, _) => Value.alike h w v) with
  | some (_, i) =>
    removeAt r i
    return .none
  | none => Eval.valueFault "list.remove(x): x not in list"

def call (ev : Evaluator) (r : Ref) (name : String) (args : List Value) (keywords : Bindings) :
    Eval Value := do
  let title := "list." ++ name
  Eval.ofExcept (noKeywords title keywords)
  let items := (← get).listItems r
  match name with
  | "append" =>
    let v ← Eval.ofExcept (one title args)
    Eval.write r (.list (items.push v))
    return .none
  | "extend" =>
    let v ← Eval.ofExcept (one title args)
    let more ← ev.collect v
    Eval.write r (.list ((← get).listItems r ++ more))
    return .none
  | "pop" => pop r args
  | "insert" => insert r args
  | "remove" => remove r (← Eval.ofExcept (one title args))
  | "index" =>
    let h ← get
    indexIn items.toList args fun v => return .value ((← v.written h) ++ " is not in list")
  | "count" => countIn items.toList (← Eval.ofExcept (one title args))
  | "reverse" =>
    Eval.ofExcept (nothing title args)
    Eval.write r (.list items.reverse)
    return .none
  | "clear" =>
    Eval.ofExcept (nothing title args)
    Eval.write r (.list #[])
    return .none
  | "copy" =>
    Eval.ofExcept (nothing title args)
    Eval.newList items
  | _ => Eval.fault (Value.noAttribute (.list r) name)

end ListMethod

namespace DictMethod

def keyWithDefault (name : String) (args : List Value) : Except Fault (Value × Value) := do
  between name args 1 2
  return (args.headD .none, args.getD 1 .none)

def call (ev : Evaluator) (r : Ref) (name : String) (args : List Value) (keywords : Bindings) :
    Eval Value := do
  let title := "dict." ++ name
  if name ≠ "update" then Eval.ofExcept (noKeywords title keywords)
  let h ← get
  let entries := h.dictEntries r
  match name with
  | "get" =>
    let (k, usual) ← Eval.ofExcept (keyWithDefault name args)
    return (← Eval.ofExcept (Value.lookupKey? h entries k)).getD usual
  | "setdefault" =>
    let (k, usual) ← Eval.ofExcept (keyWithDefault name args)
    match ← Eval.ofExcept (Value.lookupKey? h entries k) with
    | some v => return v
    | none =>
      Eval.write r (.dict (entries.push (k, usual)))
      return usual
  | "pop" =>
    let (k, usual) ← Eval.ofExcept (keyWithDefault name args)
    match ← Eval.ofExcept (Value.eraseEntry h entries k) with
    | some (v, rest) =>
      Eval.write r (.dict rest)
      return v
    | none => if args.length = 2 then return usual else Eval.ofExcept (Value.missingKey h k)
  | "update" =>
    Eval.ofExcept (between name args 0 1)
    if let some v := args.head? then ev.updateDict r v
    keywords.forM fun (k, v) => do
      let h ← get
      Eval.write r (.dict (← Eval.ofExcept (Value.putEntry h (h.dictEntries r) (.str k) v)))
    return .none
  | _ =>
    Eval.ofExcept (nothing title args)
    match name with
    | "keys" => return .view .keys r
    | "values" => return .view .values r
    | "items" => return .view .items r
    | "copy" => Eval.newDict entries
    | "clear" =>
      Eval.write r (.dict #[])
      return .none
    | _ => Eval.fault (Value.noAttribute (.dict r) name)

end DictMethod

namespace SetMethod

/-- Takes an item out of a set; it need not be there unless the method is `remove`. -/
def remove (r : Ref) (name : String) (v : Value) : Eval Value := do
  let h ← get
  let items := (h.setItems r).toList
  match ← Eval.ofExcept (Value.indexOfKey h v items) with
  | some i =>
    Eval.write r (.set (items.eraseIdx i).toArray)
    return .none
  | none => if name = "remove" then Eval.ofExcept (Value.missingKey h v) else return .none

def call (r : Ref) (name : String) (args : List Value) (keywords : Bindings) : Eval Value := do
  let title := "set." ++ name
  Eval.ofExcept (noKeywords title keywords)
  let h ← get
  let items := (h.setItems r).toList
  match name with
  | "add" =>
    let v ← Eval.ofExcept (one title args)
    Eval.write r (.set (← Eval.ofExcept (Value.setOf h (items ++ [v]))))
    return .none
  | "discard" | "remove" => remove r name (← Eval.ofExcept (one title args))
  | _ =>
    Eval.ofExcept (nothing title args)
    match name with
    | "copy" => Eval.newSet items.toArray
    | "clear" =>
      Eval.write r (.set #[])
      return .none
    | _ => Eval.fault (Value.noAttribute (.set r) name)

end SetMethod

def callTuple (items : List Value) (name : String) (args : List Value) (keywords : Bindings) :
    Eval Value := do
  Eval.ofExcept (noKeywords ("tuple." ++ name) keywords)
  match name with
  | "index" => indexIn items args fun _ => .ok (.value "tuple.index(x): x not in tuple")
  | _ => countIn items (← Eval.ofExcept (one ("tuple." ++ name) args))

def callRange (ev : Evaluator) (v : Value) (name : String) (args : List Value)
    (keywords : Bindings) : Eval Value := do
  Eval.ofExcept (noKeywords ("range." ++ name) keywords)
  let w ← Eval.ofExcept (one ("range." ++ name) args)
  let items ← ev.collect v
  match name with
  | "index" =>
    let h ← get
    indexIn items.toList [w] fun w =>
      if w.integer?.isSome then return .value ((← w.written h) ++ " is not in range")
      else return .value "sequence.index(x): x not in sequence"
  | _ => countIn items.toList w

def callLoop (r : Ref) (args : List Value) (keywords : Bindings) : Eval Value := do
  match keywords with
  | [] =>
    let state := (← get).loopState r
    return if args.isEmpty then .none else state.cycle args
  | (k, _) :: _ =>
    Eval.typeFault ("LoopContext.cycle() got an unexpected keyword argument '" ++ k ++ "'")

def callMethod (ev : Evaluator) (receiver : Value) (name : String) (args : List Value)
    (keywords : Bindings) : Eval Value :=
  match receiver with
  | .str s => TextMethod.call ev s name args keywords
  | .list r => ListMethod.call ev r name args keywords
  | .dict r => DictMethod.call ev r name args keywords
  | .set r => SetMethod.call r name args keywords
  | .tuple items => callTuple items name args keywords
  | .range .. => callRange ev receiver name args keywords
  | .loop r => callLoop r args keywords
  | v => Eval.fault (Value.noAttribute v name)

/-- A method taken from a kind: its receiver is the first argument. -/
def callUnbound (ev : Evaluator) (kind : Builtin) (name : String) (args : List Value)
    (keywords : Bindings) : Eval Value :=
  match args with
  | [] =>
    Eval.typeFault ("unbound method " ++ kind.name ++ "." ++ name ++ "() needs an argument")
  | receiver :: rest =>
    if receiver.kindName = kind.name then callMethod ev receiver name rest keywords
    else
      Eval.typeFault ("descriptor '" ++ name ++ "' for '" ++ kind.name ++
        "' objects doesn't apply to a '" ++ receiver.kindName ++ "' object")

end Stencil
