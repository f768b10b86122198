/-!
# Blanks

The white space of Unicode 14: the ASCII controls that separate words or records, the space,
and the spaces and separators beyond ASCII.
-/

namespace Stencil.Text

def isBlank (c : Char) : Bool :=
  let n := c.toNat
  (9 ≤ n && n ≤ 13) || (28 ≤ n && n ≤ 32) || n = 0x85 || n = 0xa0 || n = 0x1680 ||
    (0x2000 ≤ n && n ≤ 0x200a) || n = 0x2028 || n = 0x2029 || n = 0x202f || n = 0x205f ||
    n = 0x3000

def dropEndWhile (p : Char → Bool) (s : List Char) : List Char :=
  (s.reverse.dropWhile p).reverse

def strip (s : List Char) : List Char := dropEndWhile isBlank (s.dropWhile isBlank)

def words (s : List Char) : List (List Char) :=
  match s with
  | [] => []
  | c :: cs =>
    if isBlank c then words cs
    else
      match cs, words cs with
      | [], _ => [[c]]
      | d :: _, w :: ws => if isBlank d then [c] :: w :: ws else (c :: w) :: ws
      | _ :: _, [] => [[c]]

end Stencil.Text

namespace String

/-- The text without blanks at either end. -/
def stripBlanks (s : String) : String := String.ofList (Stencil.Text.strip s.toList)

def isBlankText (s : String) : Bool := s.toList.all Stencil.Text.isBlank

end String
