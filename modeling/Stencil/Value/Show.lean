import Stencil.Text.Quoted
import Stencil.Number.Text
import Stencil.Value.Compare

/-!
# Values as text

Every value has a written form, in which texts are quoted and a container that holds itself
shows three dots. The plain text of a value is its written form, except that a text is its own
plain text and an undefined value has an empty one.
-/

namespace Stencil

def longestInteger : Nat := 4300

def integerText (n : Int) : Except Fault String :=
  if n.natAbs ≥ Nat.pow 10 longestInteger then
    .error (.value ("Exceeds the limit (" ++ toString longestInteger ++
      " digits) for integer string conversion; use sys.set_int_max_str_digits() to increase " ++
      "the limit"))
  else .ok (toString n)

/-- A complex number is written as the sum of its parts; a zero real part is left out. -/
def complexText (re im : Binary64) : String :=
  let imaginary := im.chars false
  if re.bits = 0 then String.ofList (imaginary ++ ['j'])
  else
    let sign := if im.isNaN || !im.isNegative then ['+'] else []
    String.ofList ('(' :: re.chars false ++ sign ++ imaginary ++ ['j', ')'])

namespace Value

def tooDeepToShow : Fault :=
  .told .recursion "maximum recursion depth exceeded while getting the repr of an object"

abbrev Shown := Except Fault String

def commaSeparated (parts : List String) : String := ", ".intercalate parts

def builtinText (b : Builtin) : String :=
  if b.isKind then "<class '" ++ b.name ++ "'>" else "<built-in function " ++ b.name ++ ">"

/-- A parameter of a kind of container; other kinds are shown by their names. -/
def parameterText (part : Value → Shown) : Value → Shown
  | .builtin c => .ok c.name
  | .ellipsis => .ok "..."
  | v => part v

def parameterTexts (part : Value → Shown) : Value → Except Fault (List String)
  | .tuple [] => .ok ["()"]
  | .tuple parts => parts.mapM (parameterText part)
  | v => do return [← parameterText part v]

section

variable (h : Heap)

/-- The written form; `part` writes parts, given the containers they are in. -/
def writtenBy (part : List Ref → Value → Shown) (inside : List Ref) : Value → Shown
  | .none => .ok "None"
  | .ellipsis => .ok "Ellipsis"
  | .undefined => .ok "UNDEFINED"
  | .bool b => .ok (if b then "True" else "False")
  | .int n => integerText n
  | .float x => .ok x.text
  | .complex re im => .ok (complexText re im)
  | .str s => .ok s.quoted
  | .bytes b => .ok (String.ofList (Text.Quoted.encodeBytes b))
  | .tuple [v] => do return "(" ++ (← part inside v) ++ ",)"
  | .tuple items => do return "(" ++ commaSeparated (← items.mapM (part inside)) ++ ")"
  | .range a b c => do
    let shown ← (if c = 1 then [a, b] else [a, b, c]).mapM integerText
    return "range(" ++ commaSeparated shown ++ ")"
  | .slice a b c => do
    return "slice(" ++ commaSeparated (← [a, b, c].mapM (part inside)) ++ ")"
  | .list r =>
    if inside.contains r then .ok "[...]"
    else do
      let items ← (h.listItems r).toList.mapM (part (r :: inside))
      return "[" ++ commaSeparated items ++ "]"
  | .dict r =>
    if inside.contains r then .ok (String.ofList ['{', '.', '.', '.', '}'])
    else do
      let entries ← (h.dictEntries r).toList.mapM fun (k, v) => do
        return (← part (r :: inside) k) ++ ": " ++ (← part (r :: inside) v)
      return "\x7b" ++ commaSeparated entries ++ "\x7d"
  | .set r => do
    let items ← (h.setItems r).toList.mapM (part inside)
    return if items.isEmpty then "set()" else "\x7b" ++ commaSeparated items ++ "\x7d"
  | .view kind r =>
    if inside.contains r then .ok "..."
    else do
      let items ← (h.dictEntries r).toList.mapM fun (k, v) =>
        match kind with
        | .keys => part (r :: inside) k
        | .values => part (r :: inside) v
        | .items => part (r :: inside) (.tuple [k, v])
      return kind.name ++ "([" ++ commaSeparated items ++ "])"
  | .loop r =>
    let s := h.loopState r
    .ok ("<LoopContext " ++ toString (s.index + 1) ++ "/" ++ toString s.length ++ ">")
  | .builtin b => .ok (builtinText b)
  | .host f => .ok ("<function " ++ f.name ++ ">")
  | .function r => .ok ("<function " ++ ((h.closure? r).elim "" (·.title)) ++ ">")
  | .method receiver label =>
    .ok ("<built-in method " ++ label ++ " of " ++ receiver.kindName ++ " object>")
  | .unboundMethod b label =>
    .ok ("<method '" ++ label ++ "' of '" ++ b.name ++ "' objects>")
  | .typeOf label => .ok ("<class '" ++ label ++ "'>")
  | .generic b parameter => do
    return b.name ++ "[" ++ commaSeparated (← parameterTexts (part inside) parameter) ++ "]"
  | v => .ok ("<" ++ v.kindName ++ " object>")

def writtenWithin : Nat → List Ref → Value → Shown
  | 0, _, _ => .error tooDeepToShow
  | fuel + 1, inside, v => writtenBy h (writtenWithin fuel) inside v

def written (v : Value) : Shown := writtenWithin h deepestValue [] v

/-- The plain text of a value. -/
def text : Value → Shown
  | .str s => .ok s
  | .undefined => .ok ""
  | .textual r => .ok (h.textOf r)
  | v => written h v

/-- The text of a value in output, where the absence of a value is no text. -/
def outputText : Value → Shown
  | .none => .ok ""
  | v => text h v

end

def asciiOnly (s : String) : String :=
  String.ofList (s.toList.flatMap fun c =>
    if c.toNat < 128 then [c]
    else if c.toNat ≤ 0xff then '\\' :: 'x' :: Text.Quoted.hexDigits 2 c.toNat
    else if c.toNat ≤ 0xffff then '\\' :: 'u' :: Text.Quoted.hexDigits 4 c.toNat
    else '\\' :: 'U' :: Text.Quoted.hexDigits 8 c.toNat)

end Value

end Stencil
