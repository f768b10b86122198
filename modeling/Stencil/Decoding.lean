import Stencil.Fault
import Stencil.Text.Quoted

/-!
# Decoding bytes

Bytes become text in an encoding of a given name. A character is read at a time; bytes that are
no character are left out, replaced by a mark, or reported with their place and the reason.
-/

namespace Stencil.Decoding

inductive Encoding
  | utf8
  /-- A mark at the beginning is dropped. -/
  | utf8Marked
  /-- A mark at the beginning tells the order of the bytes, unless it is given. -/
  | utf16 (bigEnd : Option Bool)
  | ascii | latin1 | windows1252
deriving DecidableEq, Repr

def Encoding.ofName? (name : String) : Option Encoding :=
  let plain := String.ofList (name.toList.filterMap fun c =>
    if c = '-' || c = '_' || c = ' ' then none else some c.toLower)
  match plain with
  | "utf8" | "utf" | "u8" | "cp65001" => some .utf8
  | "utf8sig" => some .utf8Marked
  | "utf16" | "u16" => some (.utf16 none)
  | "utf16le" => some (.utf16 (some false))
  | "utf16be" => some (.utf16 (some true))
  | "ascii" | "usascii" | "646" => some .ascii
  | "latin1" | "iso88591" | "88591" | "latin" | "l1" | "cp819" => some .latin1
  | "cp1252" | "windows1252" | "1252" => some .windows1252
  | _ => none

/-- A character and the number of its bytes, or the number of bytes that are none and why. -/
abbrev Step := Except (Nat × String) (Char × Nat)

namespace Step

def char (code count : Nat) : Step := .ok (Char.ofNat code, count)

def continuations? (lead : Nat) : Option Nat :=
  if lead < 0x80 then some 0
  else if 0xc2 ≤ lead && lead ≤ 0xdf then some 1
  else if 0xe0 ≤ lead && lead ≤ 0xef then some 2
  else if 0xf0 ≤ lead && lead ≤ 0xf4 then some 3
  else none

def fitsBehind (lead c : Nat) : Bool :=
  let low := if lead = 0xe0 then 0xa0 else if lead = 0xf0 then 0x90 else 0x80
  let high := if lead = 0xed then 0x9f else if lead = 0xf4 then 0x8f else 0xbf
  low ≤ c && c ≤ high

def fitting (lead wanted : Nat) (rest : List Nat) : Nat :=
  match wanted, rest with
  | w + 1, c :: cs =>
    if fitsBehind lead c then
      1 + ((cs.take w).takeWhile fun d => 0x80 ≤ d && d ≤ 0xbf).length
    else 0
  | _, _ => 0

def utf8 (lead : Nat) (rest : List Nat) : Step :=
  match continuations? lead with
  | none => .error (1, "invalid start byte")
  | some wanted =>
    let n := fitting lead wanted rest
    if n = wanted then
      char
        ((rest.take n).foldl (fun code c => code * 64 + (c - 0x80))
          (lead - [0, 0xc0, 0xe0, 0xf0].getD wanted 0))
        (n + 1)
    else if n = rest.length then .error (n + 1, "unexpected end of data")
    else .error (n + 1, "invalid continuation byte")

def utf16 (bigEnd : Bool) (lead : Nat) (rest : List Nat) : Step :=
  let unit (a b : Nat) : Nat := if bigEnd then a * 256 + b else b * 256 + a
  match rest with
  | [] => .error (1, "truncated data")
  | b :: rest =>
    let u := unit lead b
    if u < 0xd800 || 0xdfff < u then char u 2
    else if 0xdc00 ≤ u then .error (2, "illegal encoding")
    else
      match rest with
      | c :: d :: _ =>
        let v := unit c d
        if 0xdc00 ≤ v && v ≤ 0xdfff then
          char (0x10000 + (u - 0xd800) * 1024 + (v - 0xdc00)) 4
        else .error (2, "illegal UTF-16 surrogate")
      | rest => .error (2 + rest.length, "unexpected end of data")

def ascii (byte : Nat) : Step :=
  if byte < 128 then char byte 1 else .error (1, "ordinal not in range(128)")

def windowsCodes : List Nat :=
  [0x20ac, 0, 0x201a, 0x0192, 0x201e, 0x2026, 0x2020, 0x2021, 0x02c6, 0x2030, 0x0160, 0x2039,
    0x0152, 0, 0x017d, 0, 0, 0x2018, 0x2019, 0x201c, 0x201d, 0x2022, 0x2013, 0x2014, 0x02dc,
    0x2122, 0x0161, 0x203a, 0x0153, 0, 0x017e, 0x0178]

def windows1252 (byte : Nat) : Step :=
  if byte < 0x80 || 0x9f < byte then char byte 1
  else
    match windowsCodes.getD (byte - 0x80) 0 with
    | 0 => .error (1, "character maps to <undefined>")
    | code => char code 1

end Step

inductive Handling
  | strict | leaveOut | replace
deriving DecidableEq, Repr

def Handling.ofName? : String → Option Handling
  | "strict" => some .strict
  | "ignore" => some .leaveOut
  | "replace" => some .replace
  | _ => none

def unknownHandling (name : String) : Fault :=
  .told .lookup ("unknown error handler name " ++ name.quoted)

def unknownEncoding (name : String) : Fault := .told .lookup ("unknown encoding: " ++ name)

def damaged (codec : String) (place first count : Nat) (reason : String) : Fault :=
  let head := "'" ++ codec ++ "' codec can't decode byte"
  if count = 1 then
    .told .undecodable (head ++ " 0x" ++ String.ofList (Text.Quoted.hexDigits 2 first) ++
      " in position " ++ toString place ++ ": " ++ reason)
  else
    .told .undecodable (head ++ "s in position " ++ toString place ++ "-" ++
      toString (place + count - 1) ++ ": " ++ reason)

def readFrom (step : Nat → List Nat → Step) (codec handling : String) (place : Nat) :
    Nat → List Nat → Except Fault (List Char)
  | 0, _ => .ok []
  | _ + 1, [] => .ok []
  | fuel + 1, b :: rest =>
    match step b rest with
    | .ok (c, n) => do
      return c :: (← readFrom step codec handling (place + n) fuel (rest.drop (n - 1)))
    | .error (n, reason) => do
      let mark ← match Handling.ofName? handling with
        | some .strict => throw (damaged codec place b n reason)
        | some .leaveOut => pure []
        | some .replace => pure ['\ufffd']
        | none => throw (unknownHandling handling)
      return mark ++ (← readFrom step codec handling (place + n) fuel (rest.drop (n - 1)))

def read (step : Nat → List Nat → Step) (codec handling : String) (place : Nat)
    (bytes : List Nat) : Except Fault (List Char) :=
  readFrom step codec handling place (bytes.length + 1) bytes

def utf16Codec (bigEnd : Bool) : String := if bigEnd then "utf-16-be" else "utf-16-le"

def decode (e : Encoding) (handling : String) (bytes : List Nat) : Except Fault (List Char) :=
  let utf16 (bigEnd : Bool) := read (Step.utf16 bigEnd) (utf16Codec bigEnd) handling
  match e with
  | .utf8 => read Step.utf8 "utf-8" handling 0 bytes
  | .utf8Marked =>
    read Step.utf8 "utf-8" handling 0
      (if [0xef, 0xbb, 0xbf].isPrefixOf bytes then bytes.drop 3 else bytes)
  | .utf16 (some bigEnd) => utf16 bigEnd 0 bytes
  | .utf16 none =>
    if [0xff, 0xfe].isPrefixOf bytes then utf16 false 2 (bytes.drop 2)
    else if [0xfe, 0xff].isPrefixOf bytes then utf16 true 2 (bytes.drop 2)
    else utf16 false 0 bytes
  | .ascii => read (fun b _ => Step.ascii b) "ascii" handling 0 bytes
  | .latin1 => .ok (bytes.map Char.ofNat)
  | .windows1252 => read (fun b _ => Step.windows1252 b) "charmap" handling 0 bytes

/-- The text of bytes in the encoding of a name. -/
def text (encoding handling : String) (bytes : List UInt8) : Except Fault (List Char) :=
  match Encoding.ofName? encoding with
  | some e => decode e handling (bytes.map (·.toNat))
  | none => .error (unknownEncoding encoding)

def unifyLines : List Char → List Char
  | '\r' :: '\n' :: cs => '\n' :: unifyLines cs
  | '\r' :: cs => '\n' :: unifyLines cs
  | c :: cs => c :: unifyLines cs
  | [] => []

/-- The content of a text file. -/
def fileText (encoding : String) (bytes : List UInt8) : Except Fault String := do
  return String.ofList (unifyLines (← text encoding "strict" bytes))

end Stencil.Decoding
