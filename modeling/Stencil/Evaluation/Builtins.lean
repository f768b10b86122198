import Stencil.Decoding
import Stencil.Evaluation.Arguments
import Stencil.Evaluation.Sorting
import Stencil.Value.Operate

/-!
# Builtin functions

The functions every template can call: ranges, conversions, sorting, and the usual ways to
combine and to sum up iterable values.
-/

namespace Stencil.Builtins

open Arguments

def range (args : List Value) (keywords : Bindings) : Except Fault Value := do
  noKeywords "range" keywords
  between "range" args 1 3
  match ← args.mapM integer with
  | [stop] => return .range 0 stop 1
  | [start, stop] => return .range start stop 1
  | [start, stop, step] =>
    if step = 0 then throw (.value "range() arg 3 must not be zero")
    return .range start stop step
  | _ => return .none

def noLength (v : Value) : Fault := .type ("object of type '" ++ v.kindName ++ "' has no len()")

def lengthOf (h : Heap) : Value → Except Fault Nat
  | .str s => .ok s.length
  | .bytes b => .ok b.length
  | .tuple items => .ok items.length
  | .list r => .ok (h.listItems r).size
  | .dict r | .view _ r => .ok (h.dictEntries r).size
  | .set r => .ok (h.setItems r).size
  | .range a b c =>
    let n := Value.rangeLength a b c
    if n ≥ Nat.pow 2 63 then
      .error (.overflow "Python int too large to convert to C ssize_t")
    else .ok n
  | .undefined => .ok 0
  | v => .error (noLength v)

def lengthFault? : Value → Option Fault
  | .str _ | .bytes _ | .tuple _ | .list _ | .dict _ | .view .. | .set _ | .undefined => none
  | .range a b c =>
    if Value.rangeLength a b c ≥ Nat.pow 2 63 then
      some (.overflow "Python int too large to convert to C ssize_t")
    else none
  | v => some (noLength v)

theorem lengthFault?_cases {v : Value} {f : Fault} (h : lengthFault? v = some f) :
    f = noLength v ∨ f = .overflow "Python int too large to convert to C ssize_t" := by
  unfold lengthFault? at h
  split at h
  any_goals cases h
  · split at h
    · cases h
      exact .inr rfl
    · cases h
  · exact .inl rfl

def len (args : List Value) (keywords : Bindings) : Eval Value := do
  Eval.ofExcept (noKeywords "len" keywords)
  let v ← Eval.ofExcept (one "len" args)
  return .int (← Eval.ofExcept (lengthOf (← get) v))

def wantedText (title : String) (v : Value) : Except Fault String :=
  match v with
  | .str s => .ok s
  | v => .error (.type (title ++ " must be str, not " ++ v.shortKindName))

/-- Bytes become text in an encoding; nothing else can be decoded. -/
def decoded (v : Value) (encoding handling : Option Value) : Except Fault String := do
  let name (title usual : String) (v : Option Value) : Except Fault String :=
    (v.map (wantedText ("str() argument '" ++ title ++ "'"))).getD (.ok usual)
  let encoding ← name "encoding" "utf-8" encoding
  let handling ← name "errors" "strict" handling
  match v with
  | .bytes [] => return ""
  | .bytes b => return String.ofList (← Decoding.text encoding handling b)
  | .str _ => throw (.type "decoding str is not supported")
  | v => throw (.type ("decoding to str: need a bytes-like object, " ++ v.kindName ++ " found"))

def str (args : List Value) (keywords : Bindings) : Eval Value := do
  Eval.ofExcept do
    atMost "str" args keywords 3
    onlyKeywords "str" keywords ["object", "encoding", "errors"]
  let argument (i : Nat) (name : String) : Option Value := (args[i]?).or (keywords.get? name)
  match argument 0 "object", argument 1 "encoding", argument 2 "errors" with
  | none, _, _ => return .str ""
  | some v, none, none => return .str (← Eval.ofExcept (v.text (← get)))
  | some v, encoding, handling => do
    return .str (← Eval.ofExcept (decoded v encoding handling))

def tooManyDigits (n : Nat) : Fault :=
  .value ("Exceeds the limit (" ++ toString longestInteger ++
    " digits) for integer string conversion: value has " ++ toString n ++
    " digits; use sys.set_int_max_str_digits() to increase the limit")

/-- An integer in a base; `shown` is how messages quote the text. -/
def readInteger (base : Nat) (s : List Char) (shown : String) : Except Fault Value :=
  let digits := (s.filter Text.isDecimal).length
  let isPowerOfTwo := [2, 4, 8, 16, 32].contains base
  match Number.readInt? base s with
  | some n =>
    if digits > longestInteger && !isPowerOfTwo then .error (tooManyDigits digits) else .ok (.int n)
  | none =>
    .error (.value ("invalid literal for int() with base " ++ toString base ++ ": " ++
      String.ofList (shown.toList.take 200)))

def bytesText (b : List UInt8) : List Char := b.map fun c => Char.ofNat c.toNat

def wrongFor (title wanted : String) (v : Value) : Fault :=
  .type (title ++ "() argument must be " ++ wanted ++ ", not '" ++ v.kindName ++ "'")

def integerOf : Value → Except Fault Value
  | .bool b => .ok (.int (if b then 1 else 0))
  | .int n => .ok (.int n)
  | .float x =>
    match x.truncate? with
    | some n => .ok (.int n)
    | none =>
      if x.isNaN then .error (.value "cannot convert float NaN to integer")
      else .error (.overflow "cannot convert float infinity to integer")
  | .str s => readInteger 10 s.toList s.quoted
  | .bytes b => readInteger 10 (bytesText b) (String.ofList (Text.Quoted.encodeBytes b))
  | v => .error (wrongFor "int" "a string, a bytes-like object or a real number" v)

def int (args : List Value) (keywords : Bindings) : Except Fault Value := do
  atMost "int" args keywords 2
  onlyKeywords "int" keywords ["base"]
  match args[0]?, (args[1]?).or (keywords.get? "base") with
  | none, none => return .int 0
  | none, some _ => throw (.type "int() missing string argument")
  | some v, none => integerOf v
  | some v, some b => do
    let base ← integer b
    if base ≠ 0 && (base < 2 || base > 36) then
      throw (.value "int() base must be >= 2 and <= 36, or 0")
    match v with
    | .str s => readInteger base.toNat s.toList s.quoted
    | .bytes b => readInteger base.toNat (bytesText b) (String.ofList (Text.Quoted.encodeBytes b))
    | _ => throw (.type "int() can't convert non-string with explicit base")

def floatFrom (s : List Char) (shown : String) : Except Fault Value :=
  match Number.readFloat? s with
  | some x => .ok (.float x)
  | none => .error (.value ("could not convert string to float: " ++ shown))

def float (args : List Value) (keywords : Bindings) : Except Fault Value := do
  noKeywords "float" keywords
  between "float" args 0 1
  match args with
  | [] => return .float (.zero false)
  | v :: _ =>
    match v, v.number? with
    | _, some (.int n) => return .float (← Num.floatOfInt n)
    | _, some (.float x) => return .float x
    | .str s, _ => floatFrom s.toList s.quoted
    | .bytes b, _ => floatFrom (bytesText b) (String.ofList (Text.Quoted.encodeBytes b))
    | v, _ => throw (wrongFor "float" "a string or a real number" v)

def bool (args : List Value) (keywords : Bindings) : Eval Value := do
  Eval.ofExcept do
    noKeywords "bool" keywords
    between "bool" args 0 1
  let h ← get
  return .bool (args.any (Value.truth h))

variable (ev : Evaluator)

def list (args : List Value) (keywords : Bindings) : Eval Value := do
  Eval.ofExcept do
    noKeywords "list" keywords
    between "list" args 0 1
  match args with
  | [] => Eval.newList #[]
  | v :: _ => do Eval.newList (← ev.collect v)

def dict (args : List Value) (keywords : Bindings) : Eval Value := do
  Eval.ofExcept (between "dict" args 0 1)
  let r ← Eval.allocate (.dict #[])
  if let some v := args.head? then ev.updateDict r v
  keywords.forM fun (k, v) => do
    let h ← get
    Eval.write r (.dict (← Eval.ofExcept (Value.putEntry h (h.dictEntries r) (.str k) v)))
  return .dict r

def enumerateArguments (args : List Value) (keywords : Bindings) :
    Except Fault (Value × Option Value) := do
  atMost "enumerate" args keywords 2
  match args, keywords with
  | [], [] => throw (.type "enumerate() missing required argument 'iterable'")
  | [v], [] => return (v, none)
  | [v, start], _ => return (v, some start)
  | [v], (k, start) :: _ =>
    if k = "start" then return (v, some start) else throw (invalidKeyword "enumerate" k)
  | [], keywords =>
    match keywords.get? "iterable" with
    | some v =>
      onlyKeywords "enumerate" keywords ["iterable", "start"]
      return (v, keywords.get? "start")
    | none =>
      throw (invalidKeyword "enumerate" ((keywords.head?.map (·.1)).getD ""))
  | _, _ => return (.none, none)

def enumerate (args : List Value) (keywords : Bindings) : Eval Value := do
  let (v, start) ← Eval.ofExcept (enumerateArguments args keywords)
  let start ← Eval.ofExcept (integer (start.getD (.int 0)))
  let it ← v.toIterator
  Eval.newIterator .enumerate (.enumerate it start)

def zip (args : List Value) (keywords : Bindings) : Eval Value := do
  Eval.ofExcept (onlyKeywords "zip" keywords ["strict"])
  let strict := (keywords.get? "strict").any (Value.truth (← get))
  let inner ← args.mapM fun v => v.toIterator
  Eval.newIterator .zip (.zip inner strict)

def reversed (args : List Value) (keywords : Bindings) : Eval Value := do
  Eval.ofExcept do
    noKeywords "reversed" keywords
    between "reversed" args 1 1
  let h ← get
  let items (l : List Value) := Eval.newIterator .reversed (.items l.reverse)
  let backward (kind : ViewKind) (r : Ref) :=
    let n := (h.dictEntries r).size
    Eval.newIterator (.dictReversed kind) (.dictBackward kind r n n)
  match args.headD .none with
  | .list r => Eval.newIterator .listReversed (.listBackward r (h.listItems r).size)
  | .dict r => backward .keys r
  | .view kind r => backward kind r
  | .range a b c =>
    let n := Value.rangeLength a b c
    Eval.newIterator .range (.range (a + ((n : Int) - 1) * c) (-c) n)
  | .str s => items (s.toList.map fun c => .str c.toString)
  | .tuple l => items l
  | .bytes b => items (b.map fun c => .int c.toNat)
  | .undefined => items []
  | .row r => Eval.fault (noLength (.row r))
  | v => Eval.typeFault ("'" ++ v.kindName ++ "' object is not reversible")

def isBefore (op : Value.Order) (a b : Value) : Eval Bool := do
  Eval.ofExcept (Value.order (← get) op a b)

def keyOf (key : Option Value) (v : Value) : Eval Value :=
  match key with
  | none | some .none => return v
  | some f => ev.call f [v] []

def sorted (args : List Value) (keywords : Bindings) : Eval Value := do
  Eval.ofExcept (between "sorted" args 1 1)
  let items ← ev.collect (args.headD .none)
  Eval.ofExcept (onlyKeywords "sort" keywords ["key", "reverse"])
  let backward ← Eval.ofExcept (integer ((keywords.get? "reverse").getD (.bool false)))
  let pairs ← items.toList.mapM fun v => do return (← keyOf ev (keywords.get? "key") v, v)
  let sort (l : List (Value × Value)) := Sorting.sort (fun a b => isBefore .less a.1 b.1) l
  let result ←
    if backward = 0 then sort pairs else List.reverse <$> sort pairs.reverse
  Eval.newList (result.map (·.2)).toArray

/-- What is compared: the items of a single argument, or several arguments themselves. -/
def candidates (args : List Value) : Value :=
  match args with
  | [v] => v
  | args => .tuple args

def extreme (title : String) (op : Value.Order) (args : List Value) (keywords : Bindings) :
    Eval Value := do
  if args.isEmpty then
    Eval.typeFault (title ++ " expected at least 1 argument, got 0")
  Eval.ofExcept (onlyKeywords title keywords ["key", "default"])
  let usual := keywords.get? "default"
  if args.length > 1 && usual.isSome then
    Eval.typeFault ("Cannot specify a default for " ++ title ++
      "() with multiple positional arguments")
  let it ← (candidates args).toIterator
  let best ← ev.walk it (fun (best : Option (Value × Value)) v => do
    let k ← keyOf ev (keywords.get? "key") v
    match best with
    | none => return .yield (some (k, v))
    | some (k', v') =>
      if ← isBefore op k k' then return .yield (some (k, v)) else return .yield (some (k', v')))
    Evaluator.mostItems none
  match best, usual with
  | some (_, v), _ => return v
  | none, some v => return v
  | none, none => Eval.valueFault (title ++ "() arg is an empty sequence")

def sum (args : List Value) (keywords : Bindings) : Eval Value := do
  if args.isEmpty then Eval.typeFault "sum() takes at least 1 positional argument (0 given)"
  Eval.ofExcept do
    atMost "sum" args keywords 2
    onlyKeywords "sum" keywords ["start"]
  let start := (args[1]?).or (keywords.get? "start") |>.getD (.int 0)
  let it ← (args.headD .none).toIterator
  match start with
  | .str _ => Eval.typeFault "sum() can't sum strings [use ''.join(seq) instead]"
  | .bytes _ => Eval.typeFault "sum() can't sum bytes [use b''.join(seq) instead]"
  | _ => pure ()
  ev.walk it (fun total v => do return .yield (← Value.operate .add total v))
    Evaluator.mostItems start

def abs (args : List Value) (keywords : Bindings) : Except Fault Value := do
  noKeywords "abs" keywords
  let v ← one "abs" args
  match v.number? with
  | some (.int n) => return .int n.natAbs
  | some (.float x) => return .float x.abs
  | some (.complex re im) =>
    return .float (.ofFloat (re.toFloat * re.toFloat + im.toFloat * im.toFloat).sqrt)
  | none => throw (.type ("bad operand type for abs(): '" ++ v.kindName ++ "'"))

/-- An integer rounded to a multiple of `10^places`, a half to the even neighbour. -/
def roundInteger (n : Int) (places : Nat) : Int :=
  let unit := Nat.pow 10 places
  let rounded := Binary64.roundDiv n.natAbs unit * unit
  if n < 0 then -(rounded : Int) else rounded

def ifGiven : Option Value → Option Value
  | some .none => none
  | v => v

/-- A number rounded to a count of decimal places, or to an integer. -/
def rounded (v : Value) (digits : Option Value) : Except Fault Value :=
  match v.number?, digits with
  | some (.int n), none => return .int n
  | some (.int n), some d => do
    let d ← integer d
    return .int (if d ≥ 0 then n else roundInteger n (-d).toNat)
  | some (.float x), none =>
    match x.round? with
    | some n => return .int n
    | none =>
      if x.isNaN then throw (.value "cannot convert float NaN to integer")
      else throw (.overflow "cannot convert float infinity to integer")
  | some (.float x), some d => do
    let d ← integer d
    let y := x.roundTo d
    if y.isInfinite && !x.isInfinite then
      throw (.overflow "rounded value too large to represent")
    return .float y
  | _, _ => throw (.type ("type " ++ v.kindName ++ " doesn't define __round__ method"))

def round (args : List Value) (keywords : Bindings) : Except Fault Value := do
  atMost "round" args keywords 2
  let some v := (args[0]?).or (keywords.get? "number")
    | throw (.type "round() missing required argument 'number' (pos 1)")
  onlyKeywords "round" keywords ["number", "ndigits"]
  rounded v (ifGiven ((args[1]?).or (keywords.get? "ndigits")))

def call (b : Builtin) (args : List Value) (keywords : Bindings) : Eval Value :=
  match b with
  | .range => Eval.ofExcept (range args keywords)
  | .len => len args keywords
  | .str => str args keywords
  | .int => Eval.ofExcept (int args keywords)
  | .float => Eval.ofExcept (float args keywords)
  | .bool => bool args keywords
  | .list => list ev args keywords
  | .dict => dict ev args keywords
  | .enumerate => enumerate args keywords
  | .zip => zip args keywords
  | .sorted => sorted ev args keywords
  | .reversed => reversed args keywords
  | .min => extreme ev "min" .less args keywords
  | .max => extreme ev "max" .greater args keywords
  | .sum => sum ev args keywords
  | .abs => Eval.ofExcept (abs args keywords)
  | .round => Eval.ofExcept (round args keywords)

end Stencil.Builtins
