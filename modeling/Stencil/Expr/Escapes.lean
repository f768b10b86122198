import Stencil.Number.Read

/-!
# Escapes in string literals

A backslash and the characters after it stand for one character, for none (before a line end),
or, if they form no known escape, for themselves. A numeric escape that is cut short or out of
range makes the literal invalid.
-/

namespace Stencil.Expr.Escapes

open Number

def simple? : Char → Option Char
  | '\\' => some '\\'
  | '\'' => some '\''
  | '"' => some '"'
  | 'a' => some '\x07'
  | 'b' => some '\x08'
  | 'f' => some '\x0c'
  | 'n' => some '\n'
  | 'r' => some '\r'
  | 't' => some '\t'
  | 'v' => some '\x0b'
  | _ => none

def isOctal (c : Char) : Bool := '0' ≤ c && c ≤ '7'

def octalRun (s : List Char) : List Char := (s.take 3).takeWhile isOctal

def hexRun? (n : Nat) (s : List Char) : Option Nat :=
  if (s.take n).length = n then readDigits? 16 (s.take n) else none

/-- The characters of a text literal; `skip` counts those that an escape has used up. -/
def decodeText : Nat → List Char → Option (List Char)
  | _, [] => some []
  | skip + 1, _ :: cs => decodeText skip cs
  | 0, '\\' :: c :: cs =>
    if c = '\n' then decodeText 1 (c :: cs)
    else
      match simple? c with
      | some d => (decodeText 1 (c :: cs)).map (d :: ·)
      | none =>
        let digits := octalRun (c :: cs)
        if !digits.isEmpty then
          (decodeText digits.length (c :: cs)).map (Char.ofNat (natOfDigits 8 digits) :: ·)
        else
          let width := if c = 'x' then 2 else if c = 'u' then 4 else if c = 'U' then 8 else 0
          if width > 0 then
            match hexRun? width cs with
            | some n =>
              if n < 0x110000 then
                (decodeText (width + 1) (c :: cs)).map (Char.ofNat n :: ·)
              else none
            | none => none
          else if c = 'N' then none
          else (decodeText 0 (c :: cs)).map ('\\' :: ·)
  | 0, c :: cs => (decodeText 0 cs).map (c :: ·)

/-- The bytes of a byte literal, which holds ASCII characters only. -/
def decodeBytes : Nat → List Char → Option (List UInt8)
  | _, [] => some []
  | skip + 1, _ :: cs => decodeBytes skip cs
  | 0, '\\' :: c :: cs =>
    if c = '\n' then decodeBytes 1 (c :: cs)
    else
      match simple? c with
      | some d => (decodeBytes 1 (c :: cs)).map (UInt8.ofNat d.toNat :: ·)
      | none =>
        let digits := octalRun (c :: cs)
        if !digits.isEmpty then
          (decodeBytes digits.length (c :: cs)).map (UInt8.ofNat (natOfDigits 8 digits) :: ·)
        else if c = 'x' then
          match hexRun? 2 cs with
          | some n => (decodeBytes 3 (c :: cs)).map (UInt8.ofNat n :: ·)
          | none => none
        else (decodeBytes 0 (c :: cs)).map (UInt8.ofNat '\\'.toNat :: ·)
  | 0, c :: cs =>
    if c.toNat < 128 then (decodeBytes 0 cs).map (UInt8.ofNat c.toNat :: ·) else none

def rawBytes (s : List Char) : Option (List UInt8) :=
  if s.all fun c => c.toNat < 128 then some (s.map fun c => UInt8.ofNat c.toNat) else none

end Stencil.Expr.Escapes
