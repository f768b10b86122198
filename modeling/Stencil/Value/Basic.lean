import Stencil.Expr.Basic
import Stencil.Text.Position

/-!
# Values

What expressions evaluate to. Values that can change or that have an identity of their own are
references into a heap; all others are plain data. Functions made by an expression remember the
scope they were made in.
-/

namespace Stencil

open Text (Position)

/-- A place in one of the tables of a heap. -/
abbrev Ref := Nat

inductive Builtin
  | range | len | str | int | float | bool | list | dict | enumerate | zip | sorted | reversed
  | min | max | sum | abs | round
deriving DecidableEq, Repr

/-- Functions that the surrounding program offers to templates. -/
inductive HostFunction
  | url | boom | boomEmpty | boomPad | echo | next
deriving DecidableEq, Repr

inductive ViewKind
  | keys | values | items
deriving DecidableEq, Repr

inductive IteratorKind
  | list | listReversed | tuple | asciiText | text | bytes | set | range | longRange
  | dict (kind : ViewKind) | dictReversed (kind : ViewKind)
  | enumerate | zip | reversed | sequence | generator | asyncGenerator
deriving DecidableEq, Repr

inductive Value
  | none | ellipsis | undefined
  | bool (b : Bool)
  | int (n : Int)
  | float (x : Binary64)
  | complex (re im : Binary64)
  | str (s : String)
  | bytes (b : List UInt8)
  | tuple (items : List Value)
  | range (start stop step : Int)
  | slice (start stop step : Value)
  | list (r : Ref)
  | dict (r : Ref)
  | set (r : Ref)
  | view (kind : ViewKind) (dict : Ref)
  | iterator (kind : IteratorKind) (r : Ref)
  /-- An object with attributes. -/
  | object (r : Ref)
  /-- An object that is subscripted like the dictionary it wraps. -/
  | row (dict : Ref)
  /-- An object of which only the text is known. -/
  | textual (r : Ref)
  | loop (r : Ref)
  | builtin (b : Builtin)
  | host (f : HostFunction)
  | method (receiver : Value) (name : String)
  | unboundMethod (type : Builtin) (name : String)
  | function (r : Ref)
  | typeOf (name : String)
  /-- A kind of container with a parameter. -/
  | generic (of : Builtin) (parameter : Value)
deriving Repr, Inhabited

/-- A loop of a template as an enclosing scope: where it stands, the names it binds, and
whether it counts its passes. -/
structure LoopScope where
  position : Position
  names : List String
  counted : Bool
deriving Repr

/-- A comprehension or anonymous function as an enclosing scope. `active` are the names that
mean its variables at the place in question, `bound` those it ever binds, `frame` their
values. -/
structure LocalScope where
  active : List String
  bound : List String
  frame : Ref
deriving Repr

/-- Where an expression is evaluated: the render data, the enclosing loops and local scopes,
innermost first, and the name of the function it belongs to. -/
structure Scope where
  data : Ref
  lenient : Bool
  frame : Ref
  loops : List LoopScope
  locals : List LocalScope
  path : String
deriving Repr

inductive Product
  | element (e : Expr)
  | pair (key value : Expr)
deriving Repr

/-- A comprehension under way: the iterators it is in, innermost first. -/
structure Comprehension where
  product : Product
  clauses : List (Clause Expr)
  scope : Scope
  iterators : List Value
deriving Repr

/-- An anonymous function with the defaults computed when it was made. -/
structure Closure where
  parameters : Parameters Expr
  body : Expr
  scope : Scope
  defaults : List Value
  keywordDefaults : List (String × Value)
  title : String
deriving Repr

/-- The state of an iterator, which only ever moves forward. -/
inductive Cursor
  | done
  | list (r : Ref) (index : Nat)
  /-- Runs backwards; `remaining` items are still to come. -/
  | listBackward (r : Ref) (remaining : Nat)
  | items (rest : List Value)
  | set (r : Ref) (index size : Nat)
  | dict (kind : ViewKind) (r : Ref) (index size : Nat)
  | dictBackward (kind : ViewKind) (r : Ref) (remaining size : Nat)
  | range (next step : Int) (remaining : Nat)
  | enumerate (inner : Value) (index : Int)
  | zip (inner : List Value) (strict : Bool)
  | subscripts (of : Value) (index : Nat)
  | comprehension (state : Comprehension)
  | loop (r : Ref) (index : Nat)
deriving Repr

/-- Progress of a counted loop: its list, the length it had at the start, and the pass. -/
structure LoopState where
  items : Ref
  length : Nat
  index : Nat
  parent : Option Ref
deriving Repr

inductive Cell
  | list (items : Array Value)
  | dict (entries : Array (Value × Value))
  | set (items : Array Value)
  | object (fields : List (String × Value))
  | textual (s : String)
  | iterator (cursor : Cursor)
  | loop (state : LoopState)
  | function (closure : Closure)
deriving Repr, Inhabited

/-- A variable: of a comprehension or anonymous function, or of the loop at a position. -/
inductive Variable
  | own (name : String)
  | ofLoop (loop : Position) (name : String)
deriving DecidableEq, Repr

/-- Keys with their values; the first entry of a key counts. -/
abbrev BindingsOf (κ : Type) := List (κ × Value)

abbrev Bindings := BindingsOf String

abbrev Frame := BindingsOf Variable

/-- The data of one render, with those of its keys that are no text. -/
structure RenderData where
  names : Bindings
  otherKeys : List Value
deriving Repr, Inhabited

structure Heap where
  cells : Array Cell
  /-- Variables of loops and local scopes. -/
  frames : Array Frame
  data : Array RenderData
deriving Repr, Inhabited

def Heap.empty : Heap := ⟨#[], #[], #[]⟩

namespace BindingsOf

variable {κ : Type} [DecidableEq κ]

def get? (b : BindingsOf κ) (key : κ) : Option Value := b.lookup key

def put (b : BindingsOf κ) (key : κ) (v : Value) : BindingsOf κ :=
  match b with
  | [] => [(key, v)]
  | (k, w) :: rest => if k = key then (k, v) :: rest else (k, w) :: put rest key v

def update (b more : BindingsOf κ) : BindingsOf κ := more.foldl (fun b (k, v) => b.put k v) b

def keys (b : BindingsOf κ) : List κ := b.map (·.1)

end BindingsOf

end Stencil
