import Stencil.Terminal
import Stencil.Text.Lines

/-!
# Source excerpts

The lines around an error, with the line at fault marked and, if the column is known, a caret
under it.
-/

namespace Stencil

structure Snippet where
  lines : List (Int × String)
  errorLine : Int
  column : Option Int
deriving DecidableEq, Repr

namespace Snippet

/-- The lines numbered `line - context` to `line + context`, as far as they exist; `none` for a
line that is not in the source. -/
def build? (source : String) (line : Int) (context : Int) (column : Option Int) :
    Option Snippet :=
  let all := source.textLines
  if 0 < line ∧ line ≤ all.length then
    let first := (line - 1 - context).toNat
    let last := min (all.length : Int) (line + context)
    let numbered := ((all.drop first).take (last - first).toNat).zipIdx
    some ⟨numbered.map fun (text, i) => ((first + i + 1 : Nat), text), line, column⟩
  else none

def caretLine (colors : Bool) (column : Int) : String :=
  Terminal.dim colors "     |" ++ " " ++
    Terminal.colorize colors [.brightRed] (String.ofList (List.replicate column.toNat ' ') ++ "^")

def bodyLines (colors : Bool) (s : Snippet) : List String :=
  s.lines.flatMap fun (number, content) =>
    let row := Terminal.sourceLine colors number content (number = s.errorLine)
    match s.column with
    | some column =>
      if number = s.errorLine then [row, caretLine colors column] else [row]
    | none => [row]

def text (colors : Bool) (s : Snippet) : String :=
  let bar := Terminal.dim colors "   |"
  "\n".intercalate (bar :: s.bodyLines colors ++ [bar])

end Snippet

end Stencil
