import Stencil.Diagnostic.Error
import Stencil.Expr.Outline
import Stencil.Token

/-!
# Problems in template source

Why a sequence of tokens is no template, with the wording and the code of each case. Some
problems come with a hint on a line of its own.
-/

namespace Stencil

/-- A block that is open, and the line of its opener. -/
structure OpenBlock where
  block : Block
  line : Nat
deriving DecidableEq, Repr

inductive Problem
  | emptyExpression (keyword : Option Keyword)
  | unreadableExpression (text : String)
  | forbidden (construct : Expr.Forbidden) (text : String)
  | unreadableArguments (keyword : Keyword)
  | namedArguments (keyword : Keyword)
  | argumentCount (keyword : Keyword) (least most given : Nat)
  | notALiteral (what : String) (keyword : Keyword) (text : String)
  | missingHeader (keyword : Keyword)
  | unreadableHeader (keyword : Keyword) (header : String)
  | unusableTarget
  | unexpected (keyword : Keyword) (innermost : Option OpenBlock)
  | unclosed (innermost : OpenBlock)
  | nestedLayout (innermost : OpenBlock)
  | secondLayout (layout : String) (line : Nat)
  | nestedSection (innermost : OpenBlock)
  | sectionWithoutLayout (name : String)
deriving DecidableEq, Repr

namespace Problem

def unreadable : String := "<python>"

def directive (k : Keyword) : String := "@" ++ k.text

def headerHint (k : Keyword) : String :=
  directive k ++ "(item in items) or " ++ directive k ++ "(items as item)"

def headline : Problem → String
  | emptyExpression none => "Empty expression"
  | emptyExpression (some k) => "Expected an expression for " ++ directive k
  | unreadableExpression text => "Invalid expression " ++ text.quoted ++ ": " ++ unreadable
  | forbidden (.hiddenAttribute name) _ => "Access to attribute '" ++ name ++ "' is not allowed"
  | forbidden construct text =>
    let label := match construct with
      | .assignment => "':='"
      | .await => "'await'"
      | .yielding => "'yield'"
      | _ => "'yield from'"
    label ++ " is not allowed in template expressions: " ++ text.quoted
  | unreadableArguments k => "Invalid arguments for " ++ directive k ++ ": " ++ unreadable
  | namedArguments k => directive k ++ " takes positional arguments only"
  | argumentCount k least most given =>
    let expected :=
      if least = most then toString least else toString least ++ " to " ++ toString most
    directive k ++ " takes " ++ expected ++ " argument(s), got " ++ toString given
  | notALiteral what _ text => what ++ " must be a string literal, got " ++ text.quoted
  | missingHeader k => directive k ++ " requires a loop header"
  | unreadableHeader _ header => "Invalid loop header " ++ header.quoted
  | unusableTarget => "Loop targets must be names or tuples of names"
  | unexpected k none => "Unexpected " ++ directive k ++ " with no open block"
  | unexpected k (some b) =>
    "Unexpected " ++ directive k ++ ": @" ++ b.block.opener ++ " from line " ++
      toString b.line ++ " must be closed with @" ++ b.block.closer
  | unclosed b => "Unclosed @" ++ b.block.opener ++ " (opened at line " ++ toString b.line ++ ")"
  | nestedLayout b =>
    "@extends must be at the top level of a template, not inside @" ++ b.block.opener ++
      " (line " ++ toString b.line ++ ")"
  | secondLayout layout line =>
    "Template already extends '" ++ layout ++ "' (line " ++ toString line ++ ")"
  | nestedSection b =>
    "@section cannot be nested inside @" ++ b.block.opener ++ " (line " ++ toString b.line ++ ")"
  | sectionWithoutLayout name =>
    "@section('" ++ name ++ "') is only allowed in a template that uses @extends"

def hint? : Problem → Option String
  | notALiteral _ k _ => some ("Use quotes: " ++ directive k ++ "('name')")
  | missingHeader k | unreadableHeader k _ => some (headerHint k)
  | unexpected _ none => some "Remove it or add the matching opening directive"
  | unclosed b => some ("Add @" ++ b.block.closer)
  | secondLayout .. => some "A template can extend only one layout"
  | sectionWithoutLayout _ => some "Use @include for reusable fragments"
  | _ => none

def message (p : Problem) : String :=
  match p.hint? with
  | none => p.headline
  | some h => p.headline ++ "\n  Hint: " ++ h

def code : Problem → ErrorCode
  | unexpected .. => .unexpectedDirective
  | unclosed _ => .unclosedBlock
  | nestedLayout _ | secondLayout .. => .invalidExtends
  | nestedSection _ | sectionWithoutLayout _ => .invalidSection
  | _ => .invalidExpression

end Problem

end Stencil
