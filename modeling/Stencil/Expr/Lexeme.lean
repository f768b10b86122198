import Stencil.Expr.Basic
import Stencil.Number.Read
import Stencil.Text.Word

/-!
# Lexemes of expressions

The text of an expression is cut into names, numbers, string literals and operators. Comments
and line ends inside brackets are dropped; a line end outside brackets is a lexeme. Every
lexeme knows the stretch of the text it was read from.
-/

namespace Stencil.Expr

open Text

/-- What stands before the quote of a string literal. -/
structure QuotePrefix where
  raw : Bool
  bytes : Bool
  formatted : Bool
deriving DecidableEq, Repr

inductive LexemeKind
  | name (s : String)
  | number (value : Literal)
  | string (style : QuotePrefix) (body : List Char)
  | symbol (s : String)
  | newline
deriving DecidableEq, Repr

structure Lexeme where
  kind : LexemeKind
  start : Nat
  stop : Nat
deriving Repr

/-- A character and the offset at which it stands. -/
structure Mark where
  offset : Nat
  char : Char

/-- Characters with their offsets, each line end as one newline. -/
def marks : Nat → List Char → List Mark
  | _, [] => []
  | n, '\r' :: '\n' :: cs => ⟨n, '\n'⟩ :: marks (n + 2) cs
  | n, c :: cs => ⟨n, if c = '\r' then '\n' else c⟩ :: marks (n + 1) cs

def chars (ms : List Mark) : List Char := ms.map (·.char)

namespace Numeral

/-- Digits in groups joined by single underscores, and what follows; `none` if an underscore
does not join two digits. -/
def digitGroups (isDigit : Char → Bool) : Nat → List Char → Option (List Char × List Char)
  | 0, _ => none
  | fuel + 1, s =>
    let digits := s.takeWhile isDigit
    match s.drop digits.length with
    | '_' :: d :: rest =>
      if isDigit d then
        (digitGroups isDigit fuel (d :: rest)).map fun (more, after) => (digits ++ more, after)
      else none
    | ['_'] => none
    | after => some (digits, after)

def groups (isDigit : Char → Bool) (s : List Char) : Option (List Char × List Char) :=
  digitGroups isDigit (s.length + 1) s

def gluedWords : List (List Char) :=
  ["and", "else", "for", "or", "not", "if", "in", "is"].map String.toList

def isNameChar (c : Char) : Bool := isAsciiWord c || 128 ≤ c.toNat

def mayEnd (rest : List Char) : Bool :=
  gluedWords.any (·.isPrefixOf rest) ||
    match rest with
    | [] => true
    | c :: _ => !isNameChar c

def ended (value : Literal) (rest : List Char) : Option (Literal × List Char) :=
  if mayEnd rest then some (value, rest) else none

def based (base : Nat) (rest : List Char) : Option (Literal × List Char) :=
  let isDigit (c : Char) : Bool := Number.digitValue c < base
  let body := match rest with
    | '_' :: more => more
    | _ => rest
  if !body.head?.any isDigit then none
  else match groups isDigit body with
  | none => none
  | some (digits, after) =>
    if after.head?.any Char.isDigit then none
    else ended (.int (Number.natOfDigits base digits)) after

/-- A decimal with the fraction read: an exponent and the mark of an imaginary may follow. -/
def withExponent (whole fraction : List Char) (real : Bool) (rest : List Char) :
    Option (Literal × List Char) :=
  let finish (exponent : Int) (real : Bool) (rest : List Char) : Option (Literal × List Char) :=
    let digits := whole ++ fraction
    let value := Number.ofDecimal false (Number.natOfDigits 10 digits)
      (exponent - fraction.length)
    match rest with
    | 'j' :: after | 'J' :: after => ended (.imaginary value) after
    | _ =>
      if real then ended (.float value) rest
      else if digits.length > 1 && digits.head? = some '0' && digits.any (· ≠ '0') then none
      else if digits.length > 4300 then none
      else ended (.int (Number.natOfDigits 10 digits)) rest
  match rest with
  | e :: after =>
    if e = 'e' || e = 'E' then
      let (negative, signed, power) := match after with
        | '-' :: more => (true, true, more)
        | '+' :: more => (false, true, more)
        | _ => (false, false, after)
      if power.head?.any Char.isDigit then
        match groups Char.isDigit power with
        | none => none
        | some (digits, more) =>
          let k : Int := Number.natOfDigits 10 digits
          finish (if negative then -k else k) true more
      else if signed then none
      else finish 0 real rest
    else finish 0 real rest
  | [] => finish 0 real rest

def decimal (s : List Char) : Option (Literal × List Char) :=
  match groups Char.isDigit s with
  | none => none
  | some (whole, rest) =>
    match rest with
    | '.' :: after =>
      if after.head?.any Char.isDigit then
        match groups Char.isDigit after with
        | none => none
        | some (fraction, more) => withExponent whole fraction true more
      else withExponent whole [] true after
    | _ => withExponent whole [] false rest

/-- The number at the beginning of a text that starts with a digit or a point before one. -/
def read? : List Char → Option (Literal × List Char)
  | '0' :: c :: rest =>
    match c.toLower with
    | 'x' => based 16 rest
    | 'o' => based 8 rest
    | 'b' => based 2 rest
    | _ => decimal ('0' :: c :: rest)
  | '.' :: rest =>
    match groups Char.isDigit rest with
    | none => none
    | some (fraction, more) => withExponent [] fraction true more
  | s => decimal s

end Numeral

namespace QuotePrefix

def ofLetters? (letters : List Char) : Option QuotePrefix :=
  match String.ofList (letters.map Char.toLower) with
  | "" | "u" => some ⟨false, false, false⟩
  | "r" => some ⟨true, false, false⟩
  | "b" => some ⟨false, true, false⟩
  | "br" | "rb" => some ⟨true, true, false⟩
  | "f" => some ⟨false, false, true⟩
  | "fr" | "rf" => some ⟨true, false, true⟩
  | _ => none

end QuotePrefix

/-- The body of a string literal up to its closing quote, and what follows the quote. -/
def stringBody (quote : List Char) : Nat → List Mark → Option (List Char × List Mark)
  | 0, _ => none
  | _ + 1, [] => none
  | fuel + 1, m :: ms =>
    if quote.isPrefixOf (m.char :: chars (ms.take 2)) then
      some ([], ms.drop (quote.length - 1))
    else if m.char = '\n' && quote.length = 1 then none
    else if m.char = '\\' then
      match ms with
      | [] => none
      | n :: rest =>
        (stringBody quote fuel rest).map fun (body, after) => ('\\' :: n.char :: body, after)
    else (stringBody quote fuel ms).map fun (body, after) => (m.char :: body, after)

def symbols : List (List Char) :=
  ["**=", "//=", ">>=", "<<=", "...", "**", "//", ">>", "<<", "<=", ">=", "==", "!=", "->",
    "+=", "-=", "*=", "/=", "%=", "&=", "|=", "^=", "@=", ":=", "<>", "+", "-", "*", "/", "%",
    "@", "&", "|", "^", "~", "<", ">", "(", ")", "[", "]", "\x7b", "\x7d", ",", ":", ".", ";",
    "="].map String.toList

def symbol? (s : List Char) : Option (List Char) := symbols.find? (·.isPrefixOf s)

def deepestNesting : Nat := 200

def track (symbol pending : List Char) : Option (List Char) :=
  match symbol with
  | ['('] => if pending.length < deepestNesting then some (')' :: pending) else none
  | ['['] => if pending.length < deepestNesting then some (']' :: pending) else none
  | ['{'] => if pending.length < deepestNesting then some ('}' :: pending) else none
  | [')'] | [']'] | ['}'] => if pending.head? = symbol.head? then some pending.tail else none
  | _ => some pending

def isIdentifier : List Char → Bool
  | [] => false
  | c :: cs => isIdentifierStart c && cs.all isIdentifierRest

def stopOf (start : Nat) (read : List Mark) : Nat :=
  match read.getLast? with
  | some m => m.offset + 1
  | none => start

/-- All lexemes, with the brackets still to be closed; `none` for a text that has no reading. -/
def lexFrom : Nat → List Char → List Mark → Option (List Lexeme)
  | 0, _, _ => none
  | _ + 1, pending, [] => if pending.isEmpty then some [] else none
  | fuel + 1, pending, m :: ms =>
    let text := m.char :: chars ms
    let emit (kind : LexemeKind) (pending : List Char) (rest : List Mark) :=
      let read := (m :: ms).take (ms.length + 1 - rest.length)
      (lexFrom fuel pending rest).map (⟨kind, m.offset, stopOf m.offset read⟩ :: ·)
    let quoted (style : QuotePrefix) (from_ : List Mark) : Option (List Lexeme) :=
      match from_ with
      | q :: after =>
        let quote := if [q.char, q.char].isPrefixOf (chars (after.take 2))
          then [q.char, q.char, q.char] else [q.char]
        match stringBody quote (after.length + 1) (after.drop (quote.length - 1)) with
        | some (body, rest) => emit (.string style body) pending rest
        | none => none
      | [] => none
    if m.char = ' ' || m.char = '\t' || m.char = '\x0c' then lexFrom fuel pending ms
    else if m.char = '\n' then
      if pending.isEmpty then emit .newline pending ms else lexFrom fuel pending ms
    else if m.char = '#' then
      lexFrom fuel pending (ms.dropWhile fun n => n.char ≠ '\n')
    else if m.char = '\\' then
      match ms with
      | n :: rest => if n.char = '\n' && !rest.isEmpty then lexFrom fuel pending rest else none
      | [] => none
    else if m.char = '\'' || m.char = '"' then quoted ⟨false, false, false⟩ (m :: ms)
    else if m.char.isDigit || (m.char = '.' && (ms.head?.any fun n => n.char.isDigit)) then
      match Numeral.read? text with
      | some (value, rest) => emit (.number value) pending (ms.drop (ms.length - rest.length))
      | none => none
    else if Numeral.isNameChar m.char then
      let word := text.takeWhile Numeral.isNameChar
      let rest := ms.drop (word.length - 1)
      let style := if rest.head?.any fun n => n.char = '\'' || n.char = '"'
        then QuotePrefix.ofLetters? word else none
      match style with
      | some style => quoted style rest
      | none =>
        if isIdentifier word then emit (.name (String.ofList word)) pending rest else none
    else
      match symbol? text with
      | some s =>
        match track s pending with
        | some pending => emit (.symbol (String.ofList s)) pending (ms.drop (s.length - 1))
        | none => none
      | none => none

def lexemes? (text : List Char) : Option (List Lexeme) :=
  if text.contains (Char.ofNat 0) then none else lexFrom (text.length + 1) [] (marks 0 text)

end Stencil.Expr
