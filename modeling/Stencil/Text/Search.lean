/-!
# Searching in texts

First occurrences, replacement and splitting, for any kind of elements.
-/

namespace Stencil.Text

variable {α : Type} [BEq α]

def dropBeginning? : List α → List α → Option (List α)
  | [], s => some s
  | _ :: _, [] => none
  | p :: ps, c :: cs => if p == c then dropBeginning? ps cs else none

def indexOf? (needle : List α) : List α → Option Nat
  | [] => if needle.isEmpty then some 0 else none
  | c :: cs =>
    if (dropBeginning? needle (c :: cs)).isSome then some 0
    else (indexOf? needle cs).map (· + 1)

def lastIndexOf? (needle : List α) : List α → Option Nat
  | [] => if needle.isEmpty then some 0 else none
  | c :: cs =>
    match lastIndexOf? needle cs with
    | some i => some (i + 1)
    | none => if (dropBeginning? needle (c :: cs)).isSome then some 0 else none

def occursIn (needle s : List α) : Bool := (indexOf? needle s).isSome

/-- Pieces between occurrences of a non-empty separator, at most `limit` cuts; `skip` counts
the characters of the separator still to be passed over. -/
def splitFrom (sep : List α) : Nat → Option Nat → List α → List (List α)
  | _, _, [] => [[]]
  | skip + 1, limit, _ :: cs => splitFrom sep skip limit cs
  | 0, limit, c :: cs =>
    if limit ≠ some 0 && (dropBeginning? sep (c :: cs)).isSome then
      [] :: splitFrom sep (sep.length - 1) (limit.map (· - 1)) cs
    else
      match splitFrom sep 0 limit cs with
      | [] => [[c]]
      | piece :: pieces => (c :: piece) :: pieces

def splitOn (sep : List α) (limit : Option Nat) (s : List α) : List (List α) :=
  splitFrom sep 0 limit s

def countOf (needle s : List α) : Nat :=
  if needle.isEmpty then s.length + 1 else (splitOn needle none s).length - 1

/-- Puts `new` before the first `limit` elements and, if the limit allows, at the end. -/
def interleave (new : List α) : Option Nat → List α → List α
  | some 0, s => s
  | _, [] => new
  | limit, c :: cs => new ++ c :: interleave new (limit.map (· - 1)) cs

def replaceAll (old new : List α) (limit : Option Nat) (s : List α) : List α :=
  if old.isEmpty then interleave new limit s
  else new.intercalate (splitOn old limit s)

end Stencil.Text

namespace String

def hasPart (s part : String) : Bool := Stencil.Text.occursIn part.toList s.toList

end String
