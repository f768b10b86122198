import Stencil.Diagnostic.Error
import Stencil.Token.Segment

/-!
# The tokens of a source

Comments are dropped, literal characters between two other segments become one data token, and
the end of the source has a token of its own.
-/

namespace Stencil

open Text (Position)

namespace Segment.Fault

def code : Segment.Fault → ErrorCode
  | unclosedComment => .unclosedComment
  | unclosedOutput _ => .unclosedOutput
  | missingArguments _ => .missingArguments
  | unclosedArguments .. => .unclosedArguments

end Segment.Fault

namespace Segment

def tokenKind? : Segment → Option TokenKind
  | literal _ | comment _ => none
  | output body => some (.output (String.ofList body))
  | rawOutput body => some (.rawOutput (String.ofList body))
  | bare _ k => some (.directive k none)
  | withArguments _ k _ body => some (.directive k (some (String.ofList body)))

/-- Literal text collected so far, last character first, with the place where it began. -/
abbrev Pending := Option (Position × List Char)

def flush : Pending → List Token → List Token
  | none, rest => rest
  | some (p, text), rest => ⟨.data (String.ofList text.reverse), p⟩ :: rest

def tokensAfter (stop : Position) : Pending → List (Position × Segment) → List Token
  | pending, [] => flush pending [⟨.finish, stop⟩]
  | pending, (p, s) :: rest =>
    match s with
    | .literal c =>
      match pending with
      | none => tokensAfter stop (some (p, [c])) rest
      | some (q, text) => tokensAfter stop (some (q, c :: text)) rest
    | s =>
      match s.tokenKind? with
      | none => tokensAfter stop pending rest
      | some kind => flush pending (⟨kind, p⟩ :: tokensAfter stop none rest)

end Segment

/-- A source text with the names under which errors report it. -/
structure Source where
  text : String
  name : Option String
  filename : Option String
deriving DecidableEq, Repr

namespace Source

def segments (s : Source) : Except (Segment.Fault × Position) (List (Position × Segment)) :=
  Segment.scan none false .origin s.text.toList

def tokensOf (s : Source) (segments : List (Position × Segment)) : List Token :=
  Segment.tokensAfter (Position.origin.after s.text.toList) none segments

def errorAt (s : Source) (message : String) (code : ErrorCode) (p : Position) : SyntaxError where
  message := message
  line := some p.line
  name := s.name
  filename := s.filename
  source := some s.text
  column := some p.column
  code := code

def tokens (s : Source) : Except SyntaxError (List Token) :=
  match s.segments with
  | .ok segments => .ok (s.tokensOf segments)
  | .error (fault, p) => .error (s.errorAt fault.message fault.code p)

end Source

end Stencil
