/-!
# Closing delimiters

The text of an interpolation or argument list goes on to the first closing delimiter that
stands outside string literals and outside brackets opened within it. A bracket that matches
no open one is ordinary text.
-/

namespace Stencil.Token.Closing

/-- Reading code with brackets to be closed, innermost first, or inside a string literal. -/
inductive Mode
  | code (pending : List Char)
  | quoted (pending : List Char) (quote : List Char)
deriving DecidableEq, Repr

def closerFor : Char → Option Char
  | '(' => some ')'
  | '[' => some ']'
  | '{' => some '}'
  | _ => none

/-- The quote that opens a literal at `c`, three characters if they all stand there. -/
def openingQuote (c : Char) (cs : List Char) : List Char :=
  if [c, c].isPrefixOf cs then [c, c, c] else [c]

/-- The mode after reading `c` in front of `cs`, with the number of further characters that
are read along with it. -/
def Mode.step (c : Char) (cs : List Char) : Mode → Mode × Nat
  | .quoted pending quote =>
    if c = '\\' then (.quoted pending quote, 1)
    else if quote.isPrefixOf (c :: cs) then (.code pending, quote.length - 1)
    else (.quoted pending quote, 0)
  | .code pending =>
    if c = '\'' || c = '"' then
      let quote := openingQuote c cs
      (.quoted pending quote, quote.length - 1)
    else
      match closerFor c with
      | some closer => (.code (closer :: pending), 0)
      | none => if pending.head? = some c then (.code pending.tail, 0) else (.code pending, 0)

def Mode.closesAt (closer : List Char) (s : List Char) : Mode → Bool
  | .code [] => closer.isPrefixOf s
  | _ => false

/-- Offset of the closing delimiter, skipping the first characters. -/
def offsetFrom (closer : List Char) : Mode → Nat → List Char → Option Nat
  | _, _, [] => none
  | mode, skip + 1, _ :: cs => (offsetFrom closer mode skip cs).map (· + 1)
  | mode, 0, c :: cs =>
    if mode.closesAt closer (c :: cs) then some 0
    else
      let next := mode.step c cs
      (offsetFrom closer next.1 next.2 cs).map (· + 1)

/-- The least offset at which `closer` ends a text, `none` if nothing does. -/
def offset? (closer s : List Char) : Option Nat := offsetFrom closer (.code []) 0 s

end Stencil.Token.Closing
