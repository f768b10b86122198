/-!
# Markup-safe text

The five characters that carry meaning in markup are written as entities; every other
character stands for itself.
-/

namespace Stencil.Text

def escapeChar : Char → List Char
  | '&' => "&amp;".toList
  | '<' => "&lt;".toList
  | '>' => "&gt;".toList
  | '"' => "&quot;".toList
  | '\'' => "&#39;".toList
  | c => [c]

def escapeChars (s : List Char) : List Char := s.flatMap escapeChar

@[simp] theorem escapeChars_nil : escapeChars [] = [] := rfl

@[simp] theorem escapeChars_cons (c : Char) (s : List Char) :
    escapeChars (c :: s) = escapeChar c ++ escapeChars s := rfl

theorem escapeChars_append (s t : List Char) :
    escapeChars (s ++ t) = escapeChars s ++ escapeChars t := by
  simp [escapeChars]

def needsEscape (c : Char) : Bool :=
  c = '&' || c = '<' || c = '>' || c = '"' || c = '\''

/-- A text without special characters is returned as it is. -/
def escape (s : String) : String :=
  if s.toList.any needsEscape then String.ofList (escapeChars s.toList) else s

end Stencil.Text
