import Stencil.Text.Word
import Stencil.Text.Search
import Stencil.Token
import Stencil.Token.Closing

/-!
# Segments of a source text

A source is cut into literal characters, comments, interpolations and directives. Which one
begins at a place depends on the text from there on, the character before it, and whether a
directive ended just there. A segment knows the exact text it was read from.
-/

namespace Stencil

open Text

namespace Delimiter

def commentOpening : List Char := ['{', '{', '-', '-']
def commentClosing : List Char := ['-', '-', '}', '}']
def outputOpening : List Char := ['{', '{']
def outputClosing : List Char := ['}', '}']
def rawOpening : List Char := ['{', '!', '!']
def rawClosing : List Char := ['!', '!', '}']

end Delimiter

inductive Segment
  | literal (c : Char)
  | comment (body : List Char)
  | output (body : List Char)
  | rawOutput (body : List Char)
  | bare (word : List Char) (keyword : Keyword)
  | withArguments (word : List Char) (keyword : Keyword) (gap : List Char) (body : List Char)
deriving DecidableEq, Repr

namespace Segment

def source : Segment → List Char
  | literal c => [c]
  | comment body => Delimiter.commentOpening ++ body ++ Delimiter.commentClosing
  | output body => Delimiter.outputOpening ++ body ++ Delimiter.outputClosing
  | rawOutput body => Delimiter.rawOpening ++ body ++ Delimiter.rawClosing
  | bare word _ => '@' :: word
  | withArguments word _ gap body => '@' :: word ++ gap ++ '(' :: body ++ [')']

def isDirective : Segment → Bool
  | bare .. | withArguments .. => true
  | _ => false

/-- Why no segment begins at a place, with the text passed over before the fault. -/
inductive Fault
  | unclosedComment
  | unclosedOutput (raw : Bool)
  | missingArguments (keyword : Keyword)
  | unclosedArguments (keyword : Keyword) (passed : List Char)
deriving DecidableEq, Repr

namespace Fault

def unclosed (opening closing : List Char) : String :=
  "Unclosed " ++ String.ofList ('\'' :: opening ++ ['\'']) ++ ": expected " ++
    String.ofList ('\'' :: closing ++ ['\''])

def message : Fault → String
  | unclosedComment =>
    "Unclosed comment " ++ String.ofList ('\'' :: Delimiter.commentOpening ++ ['\''])
  | unclosedOutput false => unclosed Delimiter.outputOpening Delimiter.outputClosing
  | unclosedOutput true => unclosed Delimiter.rawOpening Delimiter.rawClosing
  | missingArguments k =>
    "@" ++ k.text ++ " requires an argument list: @" ++ k.text ++ "(...)"
  | unclosedArguments k _ => "Unclosed argument list for @" ++ k.text

/-- What lies between the start of the construct and the place of the fault. -/
def passed : Fault → List Char
  | unclosedArguments _ passed => passed
  | _ => []

end Fault

def leadingWord : List Char → List Char
  | [] => []
  | c :: cs => if isAsciiLetter c || c = '_' then c :: cs.takeWhile isWord else []

def keywordOf (word : List Char) : Option Keyword :=
  Keyword.ofText? (String.ofList (word.map Char.toLower))

/-- Whether an `@` may start the directive `k`: not inside a word, or right after another
directive, or for a closer or branch that does not look like the domain of an address. -/
def mayStart (previous : Option Char) (adjacent : Bool) (k : Keyword) (rest : List Char) : Bool :=
  adjacent || !(previous.any isWord) ||
    (k.mayBeGlued && rest.head? ≠ some '.' && rest.head? ≠ some '-')

/-- The directive whose word has been read. -/
def directive (word : List Char) (k : Keyword) (rest : List Char) : Except Fault Segment :=
  if k.takesArguments then
    let gap := rest.takeWhile fun c => c = ' ' || c = '\t'
    match rest.drop gap.length with
    | '(' :: body =>
      match Token.Closing.offset? [')'] body with
      | some n => .ok (withArguments word k gap (body.take n))
      | none => .error (.unclosedArguments k ('@' :: word ++ gap))
    | _ => .error (.missingArguments k)
  else .ok (bare word k)

/-- The segment at the beginning of a text. -/
def first (previous : Option Char) (adjacent : Bool) (c : Char) (cs : List Char) :
    Except Fault Segment :=
  if let some body := dropBeginning? Delimiter.commentOpening (c :: cs) then
    match indexOf? Delimiter.commentClosing body with
    | some n => .ok (comment (body.take n))
    | none => .error .unclosedComment
  else if let some body := dropBeginning? Delimiter.rawOpening (c :: cs) then
    match Token.Closing.offset? Delimiter.rawClosing body with
    | some n => .ok (rawOutput (body.take n))
    | none => .error (.unclosedOutput true)
  else if let some body := dropBeginning? Delimiter.outputOpening (c :: cs) then
    match Token.Closing.offset? Delimiter.outputClosing body with
    | some n => .ok (output (body.take n))
    | none => .error (.unclosedOutput false)
  else if c = '@' then
    let word := leadingWord cs
    let rest := cs.drop word.length
    match keywordOf word with
    | some k =>
      if mayStart previous adjacent k rest then directive word k rest else .ok (literal c)
    | none => .ok (literal c)
  else .ok (literal c)

theorem source_length_pos (s : Segment) : 0 < s.source.length := by
  cases s <;> simp [source, Delimiter.commentOpening, Delimiter.outputOpening, Delimiter.rawOpening]

/-- All segments of a text, from a given position on; a fault is located. -/
def scan (previous : Option Char) (adjacent : Bool) (p : Position) :
    List Char → Except (Fault × Position) (List (Position × Segment))
  | [] => .ok []
  | c :: cs =>
    match first previous adjacent c cs with
    | .error f => .error (f, p.after f.passed)
    | .ok s =>
      have : (cs.drop (s.source.length - 1)).length < (c :: cs).length := by
        simp only [List.length_drop, List.length_cons]
        omega
      let rest := scan s.source.getLast? s.isDirective (p.after s.source)
        (cs.drop (s.source.length - 1))
      rest.map ((p, s) :: ·)
termination_by s => s.length

end Segment

end Stencil
