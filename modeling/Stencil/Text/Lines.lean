/-!
# Lines of a text

A line ends at a line feed, a carriage return or both together, at a vertical tab or form
feed, at one of the three information separators, or at a Unicode line boundary. The end
belongs to no line, and a text that ends with one has no further empty line.
-/

namespace Stencil.Text

def isLineEnd (c : Char) : Bool :=
  let n := c.toNat
  (10 ≤ n && n ≤ 13) || (28 ≤ n && n ≤ 30) || n = 0x85 || n = 0x2028 || n = 0x2029

def lines : List Char → List (List Char)
  | [] => []
  | '\r' :: '\n' :: cs => [] :: lines cs
  | c :: cs =>
    if isLineEnd c then [] :: lines cs
    else
      match lines cs with
      | [] => [[c]]
      | l :: ls => (c :: l) :: ls

@[simp] theorem lines_nil : lines [] = [] := by simp [lines]

def firstLine (s : List Char) : List Char := s.takeWhile (· ≠ '\n')

end Stencil.Text

namespace String

def textLines (s : String) : List String :=
  (Stencil.Text.lines s.toList).map String.ofList

end String
