import Stencil.Node
import Stencil.Tree.Problem

/-!
# Directive arguments

The expressions, argument lists and loop headers of single tokens. Each is read on its own;
which blocks are open plays no part here.
-/

namespace Stencil

open Text (Position)

/-- Why a token is refused: a problem of the template at a place in it, or an argument list that
reads as some other expression. -/
inductive Rejection
  | problem (problem : Problem) (position : Position)
  | notACall
deriving DecidableEq, Repr

/-- What a directive or interpolation was written as, for reading its arguments. -/
structure Written where
  position : Position
  keyword : Option Keyword
  arguments : String

namespace Written

variable (w : Written)

def refuse {α : Type} (p : Problem) : Except Rejection α := .error (.problem p w.position)

/-- The keyword under which a directive reports problems with its arguments. -/
def directive : Keyword := w.keyword.getD .layout

def permitted (text : String) (e : Expr) : Except Rejection Unit :=
  match e.firstForbidden? with
  | some construct => w.refuse (.forbidden construct text.stripBlanks)
  | none => .ok ()

def expressionOf (text : String) : Except Rejection Code :=
  if text.isBlankText then w.refuse (.emptyExpression w.keyword)
  else
    match Expr.read? text.toList with
    | none => w.refuse (.unreadableExpression text.stripBlanks)
    | some e => do
      w.permitted text e
      return ⟨w.position, text.stripBlanks, e⟩

def expression : Except Rejection Code := w.expressionOf w.arguments

/-- Between `least` and `most` positional arguments. -/
def argumentList (least most : Nat) : Except Rejection (List Code) :=
  match Expr.readArguments w.arguments.toList with
  | .error .malformed => w.refuse (.unreadableArguments w.directive)
  | .error .notACall => .error .notACall
  | .ok list =>
    let given := list.positional.length
    if list.named || list.positional.any (fun a => Grammar.isStarred a.expr) then
      w.refuse (.namedArguments w.directive)
    else if given < least ∨ most < given then
      w.refuse (.argumentCount w.directive least most given)
    else
      list.positional.mapM fun a => do
        w.permitted a.text a.expr
        return ⟨w.position, a.text, a.expr⟩

/-- The text of an argument that has to be a string literal. -/
def literal (what : String) (code : Code) : Except Rejection String :=
  match code.expr with
  | .literal (.text s) => .ok s
  | _ => w.refuse (.notALiteral what w.directive code.text)

/-- The section name of a place to fill and its default. -/
def place : Except Rejection (String × String) := do
  let arguments ← w.argumentList 1 2
  let name ← w.literal "Section name" (arguments.headD default)
  match arguments.drop 1 with
  | value :: _ => return (name, ← w.literal "@yield default" value)
  | [] => return (name, "")

/-- Splits `source as target` at its last `as` between blanks: what precedes the blank before
it, and what follows the blanks behind it. -/
def splitAs? (header : List Char) : Option (List Char × List Char) :=
  let rec search : List Char → List Char → Option (List Char × List Char)
    | _, [] => none
    | before, c :: cs =>
      match search (c :: before) cs with
      | some found => some found
      | none =>
        if Text.isBlank c && !before.isEmpty then
          match cs.dropWhile Text.isBlank with
          | 'a' :: 's' :: d :: rest =>
            if Text.isBlank d then
              match rest.dropWhile Text.isBlank with
              | [] => none
              | target => some (before.reverse, target)
            else none
          | _ => none
        else none
  search [] header

mutual

/-- Loop targets are names, and tuples and lists of targets. -/
def isLoopTarget : Expr → Bool
  | .name _ => true
  | .display .tuple items | .display .list items => areLoopTargets items
  | _ => false

def areLoopTargets : List Expr → Bool
  | [] => true
  | e :: es => isLoopTarget e && areLoopTargets es

end

/-- Target and source of a loop, from `target in source` or `source as target`. -/
def loopHeader : Except Rejection (Code × Code) :=
  let header := w.arguments.stripBlanks
  if header.isEmpty then w.refuse (.missingHeader w.directive)
  else
    let found : Option (Expr.Written × String) :=
      match Expr.readHeader? header.toList with
      | some h => some (h.target, h.source.text)
      | none => do
        let (source, target) ← splitAs? header.toList
        let h ← Expr.readHeader? (target ++ " in _".toList)
        return (h.target, String.ofList source)
    match found with
    | none => w.refuse (.unreadableHeader w.directive header)
    | some (target, source) =>
      if isLoopTarget target.expr then do
        let source ← w.expressionOf source
        return (⟨w.position, target.text, target.expr⟩, source)
      else w.refuse .unusableTarget

end Written

end Stencil
