import Stencil.Tree.Blocks

/-!
# Template sources

A source text with the names it is known by, read into a tree. Problems of the text become
syntax errors that carry the names and the place; content that an extending template drops is
reported by warnings.
-/

namespace Stencil

open Text (Position)

/-- What a template operation fails with: an error of a template, or a bare fault. -/
inductive Failure
  | template (error : TemplateError)
  | fault (fault : Fault)
deriving DecidableEq, Repr

namespace Source

def noCall : Fault := .told .assertion ""

def failure (s : Source) : Rejection → Failure
  | .problem problem position =>
    .template (.malformed (s.errorAt problem.message problem.code position))
  | .notACall => .fault noCall

def orphanWarning (s : Source) (layout : String) (p : Position) : String :=
  (nonEmpty s.name).getD "<string>" ++ ":" ++ toString p.line ++
    ": content outside @section in a template that extends '" ++ layout ++ "' is ignored"

/-- The tree of a source and the warnings about it. -/
def tree (s : Source) : Except Failure (Tree × List String) :=
  match s.tokens with
  | .error e => .error (.template (.malformed e))
  | .ok tokens =>
    match Tree.ofTokens tokens with
    | .error r => .error (s.failure r)
    | .ok (tree, orphans) => .ok (tree, orphans.map (s.orphanWarning (tree.layout?.getD "")))

end Source

end Stencil
