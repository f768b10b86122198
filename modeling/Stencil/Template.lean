import Stencil.Evaluation.Expression
import Stencil.World

/-!
# Templates

A template is a source that has been read and checked. Checking refuses expressions that read
well but make no sense, and loops nested too deeply; it needs no data.
-/

namespace Stencil

structure Template where
  source : Source
  tree : Tree
  /-- Whether names and attributes that are missing are undefined values. -/
  lenient : Bool
deriving Repr

namespace Node

mutual

def expressions : Node → List Code
  | .data _ _ | .yielding _ _ _ => []
  | .output _ code _ => [code]
  | .including _ _ given => given.toList
  | .conditional _ test body others otherwise =>
    test :: (expressionsOf body ++ expressionsOfOthers others ++ expressionsOf otherwise)
  | .loop _ _ target source body => source :: target :: expressionsOf body
  | .whileLoop _ test body => test :: expressionsOf body

def expressionsOf : List Node → List Code
  | [] => []
  | n :: ns => expressions n ++ expressionsOf ns

def expressionsOfOthers : List (Code × List Node) → List Code
  | [] => []
  | o :: os => expressionsOfOther o ++ expressionsOfOthers os

def expressionsOfOther : Code × List Node → List Code
  | (test, body) => test :: expressionsOf body

end

/-- Whether a name occurs in any expression of some nodes. -/
def mention (name : String) (nodes : List Node) : Bool :=
  (expressionsOf nodes).any fun code => code.expr.mentions name

mutual

def loopDepth : Node → Nat
  | .data _ _ | .yielding _ _ _ | .output _ _ _ | .including _ _ _ => 0
  | .conditional _ _ body others otherwise =>
    max (loopDepths body) (max (loopDepthOfOthers others) (loopDepths otherwise))
  | .loop _ _ _ _ body | .whileLoop _ _ body => loopDepths body + 1

def loopDepths : List Node → Nat
  | [] => 0
  | n :: ns => max (loopDepth n) (loopDepths ns)

def loopDepthOfOthers : List (Code × List Node) → Nat
  | [] => 0
  | o :: os => max (loopDepthOfOther o) (loopDepthOfOthers os)

def loopDepthOfOther : Code × List Node → Nat
  | (_, body) => loopDepths body

end

end Node

namespace Tree

/-- The bodies that are rendered: of the page, or of each section. -/
def bodies : Tree → List (List Node)
  | page nodes => [nodes]
  | extension _ _ sections => sections.map (·.body)

end Tree

namespace Template

def name (t : Template) : Option String := t.source.name

def filename (t : Template) : Option String := t.source.filename

/-- The name of a template where one is needed. -/
def label (t : Template) : String := (nonEmpty t.name).getD "(inline)"

def text (t : Template) : String := "<Template " ++ t.label ++ ">"

def sectionText (t : Template) (sectionName : String) : String :=
  "<BoundSection " ++ sectionName.quoted ++ " from " ++ t.label ++ ">"

def deepestLoops : Nat := 20

/-- What keeps a body from being rendered at all. -/
def bodyProblem? (nodes : List Node) : Option String :=
  match (Node.expressionsOf nodes).findSome? fun c => c.expr.firstSenseless? with
  | some senseless => some senseless.message
  | none =>
    if Node.loopDepths nodes > deepestLoops then some "too many statically nested blocks" else none

def lastSegment (path : String) : String :=
  String.ofList ((path.toList.reverse.takeWhile (· ≠ '/')).reverse)

/-- What a source is checked as: its file, or the name of the template. -/
def place (s : Source) : String :=
  ((nonEmpty s.filename).orElse fun _ => nonEmpty s.name).getD "<template>"

/-- A problem of a body as a fault that names the source. -/
def problemFault (s : Source) (problem : String) : Fault :=
  .told .invalidSyntax (problem ++ " (" ++ lastSegment (place s) ++ ", line 1)")

/-- Nothing is checked under a name with a null character in it. -/
def badPlace : Fault := .value "embedded null character"

def checkFault? (s : Source) (tree : Tree) : Option Fault :=
  if '\x00' ∈ (place s).toList then some badPlace
  else (tree.bodies.findSome? bodyProblem?).map (problemFault s)

theorem checkFault?_page {s : Source} {ns : List Node} :
    checkFault? s (.page ns) = none ↔ '\x00' ∉ (place s).toList ∧ bodyProblem? ns = none := by
  unfold checkFault? Tree.bodies
  split
  · rename_i hnull
    exact iff_of_false nofun fun h => h.1 hnull
  · rename_i hfine
    rw [Option.map_eq_none_iff, List.findSome?_singleton]
    exact (and_iff_right hfine).symm

/-- Reads and checks a source. -/
def compile (s : Source) (lenient : Bool) : Action Template := do
  match s.tree with
  | .error f => throw (.failed f)
  | .ok (tree, warnings) =>
    warnings.forM fun w => Action.notice (.warning w)
    match checkFault? s tree with
    | some f => Action.fault f
    | none =>
      Action.notice (.log ("Compiled template " ++ (nonEmpty s.name).getD "<string>" ++
        " in <time>ms"))
      return ⟨s, tree, lenient⟩

end Template

end Stencil
