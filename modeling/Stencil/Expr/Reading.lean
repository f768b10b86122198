import Stencil.Expr.Grammar
import Stencil.Text.Lines

/-!
# Reading expressions

Three forms of text are read: one expression, an argument list, and a loop header
`target in source`. Each is read inside brackets or a frame of its own, so that it may run
over several lines; a text that breaks out of its brackets is read as what it then is.
-/

namespace Stencil.Expr

open Grammar

def read? (text : List Char) : Option Expr :=
  (readAll ('(' :: text ++ ['\n', ')']) fun parse => parse .expressions).map (·.expr)

/-- An expression with the text it was written as. -/
structure Written where
  expr : Expr
  text : String
deriving Repr, Inhabited

def stretch (text : List Char) (span : Span) : String :=
  String.ofList ((text.drop span.start).take (span.stop - span.start))

/-- Arguments of a call; `named` tells that some of them are given by name. -/
structure ArgumentList where
  positional : List Written
  named : Bool

inductive NoArguments
  | malformed
  | notACall
deriving DecidableEq, Repr

def readArguments (text : List Char) : Except NoArguments ArgumentList :=
  let framed := '_' :: '(' :: text ++ ['\n', ')']
  match readAll framed fun parse => parse .expressions with
  | none => .error .malformed
  | some node =>
    match node.expr with
    | .call _ arguments keywords =>
      .ok ⟨List.zipWith (fun e span => ⟨e, stretch framed span⟩) arguments node.arguments,
        !keywords.isEmpty⟩
    | _ => .error .notACall

structure LoopHeader where
  target : Written
  source : Written

def headerRule (parse : Goal → Parser Node) : Parser (Node × Node) := do
  Parser.expectWord "for"
  let target ← parse .targets
  Parser.expectWord "in"
  let source ← parse .starExpressions
  Parser.expect ":"
  if (← Parser.next) = .newline then Parser.expectWord "pass" else failure
  return (target, source)

/-- A header read as the first line of a loop; its line ends count as blanks. -/
def readHeader? (text : List Char) : Option LoopHeader :=
  let framed := "for ".toList ++ [' '].intercalate (Text.lines text) ++ ":\n    pass".toList
  (readAll framed headerRule).map fun (target, source) =>
    ⟨⟨target.expr, stretch framed target.span⟩, ⟨source.expr, stretch framed source.span⟩⟩

end Stencil.Expr
