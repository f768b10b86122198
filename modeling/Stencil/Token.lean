import Stencil.Text.Position
import Stencil.Text.Quoted

/-!
# Tokens

A template is a sequence of literal text, interpolations and directives. A directive opens a
block, closes one, continues a conditional, or stands alone.
-/

namespace Stencil

open Text (Position)

inductive Block
  | sectionBlock | ifBlock | foreachBlock | forBlock | whileBlock
deriving DecidableEq, Repr

def Block.opener : Block → String
  | sectionBlock => "section"
  | ifBlock => "if"
  | foreachBlock => "foreach"
  | forBlock => "for"
  | whileBlock => "while"

def Block.closer (b : Block) : String := "end" ++ b.opener

inductive Keyword
  | opening (block : Block)
  | closing (block : Block)
  | elseIf | otherwise | layout | yielding | including
deriving DecidableEq, Repr

namespace Keyword

def text : Keyword → String
  | opening b => b.opener
  | closing b => b.closer
  | elseIf => "elseif"
  | otherwise => "else"
  | layout => "extends"
  | yielding => "yield"
  | including => "include"

def all : List Keyword :=
  let blocks : List Block := [.sectionBlock, .ifBlock, .foreachBlock, .forBlock, .whileBlock]
  blocks.map opening ++ blocks.map closing ++ [elseIf, otherwise, layout, yielding, including]

def ofText? (s : String) : Option Keyword := all.find? fun k => k.text = s

/-- Whether an argument list has to follow. -/
def takesArguments : Keyword → Bool
  | opening _ | elseIf | layout | yielding | including => true
  | closing _ | otherwise => false

def mayBeGlued : Keyword → Bool
  | closing _ | elseIf | otherwise => true
  | _ => false

end Keyword

inductive TokenKind
  | data (text : String)
  | output (text : String)
  | rawOutput (text : String)
  | directive (keyword : Keyword) (arguments : Option String)
  | finish
deriving DecidableEq, Repr

structure Token where
  kind : TokenKind
  position : Position
deriving DecidableEq, Repr

namespace Token

/-- The name of a token's kind. -/
def label (t : Token) : String :=
  match t.kind with
  | .data _ => "data"
  | .output _ => "output"
  | .rawOutput _ => "raw_output"
  | .directive .. => "directive"
  | .finish => "eof"

/-- Literal text, expression text or keyword. -/
def value (t : Token) : String :=
  match t.kind with
  | .data s | .output s | .rawOutput s => s
  | .directive k _ => k.text
  | .finish => ""

def arguments (t : Token) : Option String :=
  match t.kind with
  | .directive _ args => args
  | _ => none

def positionText (t : Token) : String :=
  toString t.position.line ++ ":" ++ toString t.position.column

/-- The token as shown for inspection. -/
def display (t : Token) : String :=
  match t.kind with
  | .directive k args =>
    let suffix := match args with
      | some a => "(" ++ a ++ ")"
      | none => ""
    "Token(@" ++ k.text ++ suffix ++ ", " ++ t.positionText ++ ")"
  | _ => "Token(" ++ t.label ++ ", " ++ t.value.quoted ++ ", " ++ t.positionText ++ ")"

end Token

end Stencil
