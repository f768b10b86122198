import Stencil.Number.Binary64

/-!
# Expressions

The expressions that stand in interpolations and directive arguments: literals, names,
operators, displays, comprehensions, calls and anonymous functions. Assignment targets are
expressions too. Constructs that are parsed only to be refused have constructors of their own.
-/

namespace Stencil

inductive Literal
  | none | true | false | ellipsis
  | int (n : Nat)
  | float (x : Binary64)
  | imaginary (x : Binary64)
  | text (s : String)
  | bytes (b : List UInt8)
deriving DecidableEq, Repr

inductive UnaryOp
  | not | negate | plus | invert
deriving DecidableEq, Repr

inductive BinaryOp
  | add | subtract | multiply | divide | floorDivide | remainder | power | matrix
  | shiftLeft | shiftRight | bitAnd | bitOr | bitXor
deriving DecidableEq, Repr

inductive CompareOp
  | equal | unequal | less | lessEqual | greater | greaterEqual
  | identical | distinct | member | notMember
deriving DecidableEq, Repr

inductive Display
  | tuple | list | set
deriving DecidableEq, Repr

inductive Collector
  | list | set | generator
deriving DecidableEq, Repr

/-- One `for` of a comprehension with its conditions. -/
structure Clause (ε : Type) where
  target : ε
  source : ε
  conditions : List ε
  asynchronous : Bool
deriving Repr

/-- Parameters of an anonymous function; `defaults` belong to the last positional ones. -/
structure Parameters (ε : Type) where
  positionalOnly : List String
  positional : List String
  rest : Option String
  keywordOnly : List (String × Option ε)
  restKeywords : Option String
  defaults : List ε
deriving Repr

inductive Fragment (ε : Type)
  | text (s : String)
  | field (value : ε) (conversion : Option Char) (format : Option ε)
deriving Repr

inductive Expr
  | literal (value : Literal)
  | name (id : String)
  | interpolated (fragments : List (Fragment Expr))
  | display (kind : Display) (items : List Expr)
  /-- A pair without a key spreads a mapping. -/
  | dict (entries : List (Option Expr × Expr))
  | starred (value : Expr)
  | unary (op : UnaryOp) (operand : Expr)
  | binary (op : BinaryOp) (left right : Expr)
  /-- The first operand and those joined to it by `and`, or by `or` if `any`. -/
  | boolean (any : Bool) (operands : List Expr)
  | compare (first : Expr) (rest : List (CompareOp × Expr))
  | conditional (test yes no : Expr)
  | attribute (value : Expr) (name : String)
  | subscript (value index : Expr)
  | slice (start stop step : Option Expr)
  /-- A keyword argument without a name spreads a mapping. -/
  | call (function : Expr) (arguments : List Expr) (keywords : List (Option String × Expr))
  | lambda (parameters : Parameters Expr) (body : Expr)
  | collect (kind : Collector) (element : Expr) (clauses : List (Clause Expr))
  | collectDict (key value : Expr) (clauses : List (Clause Expr))
  | assignment (target : String) (value : Expr)
  | await (value : Expr)
  | yielded (value : Option Expr)
  | yieldedFrom (value : Expr)
deriving Repr, Inhabited

namespace Expr

mutual

def isConstant : Expr → Bool
  | .literal _ => true
  | .unary _ e => isConstant e
  | .binary _ a b => isConstant a && isConstant b
  | .display .tuple items => areConstant items
  | _ => false

def areConstant : List Expr → Bool
  | [] => true
  | e :: es => isConstant e && areConstant es

end

end Expr

end Stencil
