import Stencil.Expr.Reading
import Stencil.Text.Position
import Stencil.Token

/-!
# Template nodes

What a template is made of: literal text, interpolated expressions, conditionals and loops,
places where a section is put, and inclusions. Sections stand beside the nodes and not among
them, so no node can hold one.
-/

namespace Stencil

open Text (Position)

/-- An expression of a template: where it belongs, what was written, and what it reads as. -/
structure Code where
  position : Position
  text : String
  expr : Expr
deriving Repr, Inhabited

inductive LoopKeyword
  | foreach | for
deriving DecidableEq, Repr

def LoopKeyword.block : LoopKeyword → Block
  | .foreach => .foreachBlock
  | .for => .forBlock

inductive Node
  | data (position : Position) (text : String)
  | output (position : Position) (code : Code) (escaped : Bool)
  | yielding (position : Position) (name default : String)
  | including (position : Position) (template : String) (data : Option Code)
  | conditional (position : Position) (test : Code) (body : List Node)
      (others : List (Code × List Node)) (otherwise : List Node)
  | loop (position : Position) (keyword : LoopKeyword) (target source : Code) (body : List Node)
  | whileLoop (position : Position) (test : Code) (body : List Node)
deriving Repr

def Node.position : Node → Position
  | .data p _ | .output p _ _ | .yielding p _ _ | .including p _ _ | .conditional p _ _ _ _
  | .loop p _ _ _ _ | .whileLoop p _ _ => p

structure Section where
  position : Position
  name : String
  body : List Node
deriving Repr

/-- A template either is a page of its own or extends a layout with sections. -/
inductive Tree
  | page (nodes : List Node)
  | extension (position : Position) (layout : String) (sections : List Section)
deriving Repr

namespace Tree

def layout? : Tree → Option String
  | page _ => none
  | extension _ layout _ => some layout

def nodes : Tree → List Node
  | page nodes => nodes
  | extension _ _ _ => []

def sections : Tree → List Section
  | page _ => []
  | extension _ _ sections => sections

end Tree

end Stencil
