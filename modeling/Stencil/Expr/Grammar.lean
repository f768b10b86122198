import Stencil.Expr.Escapes
import Stencil.Expr.Interpolation
import Stencil.Expr.Lexeme
import Stencil.Text.Normal

/-!
# The grammar of expressions

A rule reads lexemes and gives an expression together with the stretch of text it was written
in; brackets that only group belong to no expression. The rules call each other through the
parameter `parse`; `parseWithin` ties the knot with a bound on the depth.
-/

namespace Stencil.Grammar

open Stencil.Expr (Lexeme LexemeKind QuotePrefix lexemes?)

/-- Lexemes still to be read, and the end of the last one read. -/
structure Cursor where
  rest : List Lexeme
  stop : Nat

abbrev Parser := StateT Cursor Option

structure Span where
  start : Nat
  stop : Nat

/-- An expression and where it stands; for a call also where its positional arguments stand. -/
structure Node where
  expr : Expr
  span : Span
  arguments : List Span

def Node.of (expr : Expr) (start stop : Nat) : Node := ⟨expr, ⟨start, stop⟩, []⟩

inductive Goal
  | expression | expressions | named | starNamed | starExpression | starExpressions
  | disjunction | conjunction | inversion | comparison | operation (level : Nat)
  | factor | power | awaited | primary | atom | target | targets
deriving DecidableEq, Repr

def reservedWords : List String :=
  ["False", "None", "True", "and", "as", "assert", "async", "await", "break", "class",
    "continue", "def", "del", "elif", "else", "except", "finally", "for", "from", "global",
    "if", "import", "in", "is", "lambda", "nonlocal", "not", "or", "pass", "raise", "return",
    "try", "while", "with", "yield"]

namespace Parser

def peek : Parser (Option LexemeKind) := do
  return (← get).rest.head?.map (·.kind)

def peekSecond : Parser (Option LexemeKind) := do
  return ((← get).rest.drop 1).head?.map (·.kind)

def next : Parser LexemeKind := do
  match (← get).rest with
  | [] => failure
  | l :: ls => set (Cursor.mk ls l.stop); return l.kind

def startOffset : Parser Nat := do
  return ((← get).rest.head?.map (·.start)).getD 0

def atSymbol (s : String) : Parser Bool := do return (← peek) = some (.symbol s)

def atWord (s : String) : Parser Bool := do return (← peek) = some (.name s)

def accept (s : String) : Parser Bool := do
  if ← atSymbol s then
    let _ ← next
    return true
  else return false

def acceptWord (s : String) : Parser Bool := do
  if ← atWord s then
    let _ ← next
    return true
  else return false

def expect (s : String) : Parser Unit := do
  if ← accept s then return () else failure

def expectWord (s : String) : Parser Unit := do
  if ← acceptWord s then return () else failure

def identifier : Parser String := do
  match ← next with
  | .name s => if reservedWords.contains s then failure else return Text.normalForm s
  | _ => failure

/-- Runs `p` from the current place and records the stretch it has read. -/
def spanned (p : Parser Expr) : Parser Node := do
  let start ← startOffset
  let e ← p
  return Node.of e start (← get).stop

def attempt (p : Parser α) : Parser (Option α) := (some <$> p) <|> pure none

/-- Repeats `p` as long as it succeeds with a result; every round has to read something. -/
def repeatFrom (p : Parser (Option α)) : Nat → Parser (List α)
  | 0 => failure
  | fuel + 1 => do
    match ← p with
    | none => return []
    | some a => return a :: (← repeatFrom p fuel)

def repeated (p : Parser (Option α)) : Parser (List α) := do
  repeatFrom p ((← get).rest.length + 1)

def moreItems (item : Parser α) : Parser (List α) :=
  repeated do
    if ← accept "," then attempt item else return none

/-- Items up to a closing symbol, separated by commas; a comma may stand at the end. -/
def itemsUntil (closer : String) (item : Parser α) : Parser (List α) := do
  let items ← repeated do
    if ← accept closer then return none
    else
      let a ← item
      if ← accept "," then return some a
      else if ← atSymbol closer then return some a
      else failure
  return items

end Parser

open Stencil.Grammar.Parser

/-- Operators of each level, loosest first; all of them group to the left. -/
def operators : List (List (String × BinaryOp)) :=
  [[("|", .bitOr)], [("^", .bitXor)], [("&", .bitAnd)],
    [("<<", .shiftLeft), (">>", .shiftRight)], [("+", .add), ("-", .subtract)],
    [("*", .multiply), ("/", .divide), ("//", .floorDivide), ("%", .remainder), ("@", .matrix)]]

def binaryAt (level : Nat) : Parser (Option BinaryOp) := do
  match ← peek with
  | some (.symbol s) =>
    match (operators.getD level []).find? fun o => o.1 = s with
    | some o =>
      let _ ← next
      return some o.2
    | none => return none
  | _ => return none

def comparisonAt : Parser (Option CompareOp) := do
  match ← peek, ← peekSecond with
  | some (.symbol s), _ =>
    let op : Option CompareOp := match s with
      | "==" => some .equal
      | "!=" => some .unequal
      | "<" => some .less
      | "<=" => some .lessEqual
      | ">" => some .greater
      | ">=" => some .greaterEqual
      | _ => none
    if op.isSome then
      let _ ← next
    return op
  | some (.name "in"), _ =>
    let _ ← next
    return some .member
  | some (.name "not"), some (.name "in") =>
    let _ ← next
    let _ ← next
    return some .notMember
  | some (.name "is"), some (.name "not") =>
    let _ ← next
    let _ ← next
    return some .distinct
  | some (.name "is"), _ =>
    let _ ← next
    return some .identical
  | _, _ => return none

mutual

/-- What can be assigned to; starred only as an item of a tuple or list. -/
def isTarget (mayBeStarred : Bool) : Expr → Bool
  | .name _ | .attribute .. | .subscript .. => true
  | .display .tuple items | .display .list items => areTargets items
  | .starred t => mayBeStarred && isTarget false t
  | _ => false

def areTargets : List Expr → Bool
  | [] => true
  | e :: es => isTarget true e && areTargets es

end

def isStarred : Expr → Bool
  | .starred _ => true
  | _ => false

section Rules

variable (parse : Goal → Parser Node)

def parseExpr (g : Goal) : Parser Expr := do return (← parse g).expr

def clauses : Parser (List (Clause Expr)) := do
  let more : Parser (Option (Clause Expr)) := do
    let second ← peekSecond
    let asynchronous : Bool := (← atWord "async") && second == some (.name "for")
    if asynchronous then
      let _ ← next
    if ← acceptWord "for" then
      let target ← parseExpr parse .targets
      expectWord "in"
      let source ← parseExpr parse .disjunction
      let conditions ← repeated do
        if ← acceptWord "if" then return some (← parseExpr parse .disjunction) else return none
      return some ⟨target, source, conditions, asynchronous⟩
    else return none
  repeated more

def atClause : Parser Bool := do
  return (← atWord "for") || (← atWord "async")

structure Signature where
  positionalOnly : List String := []
  positional : List String := []
  rest : Option String := none
  keywordOnly : List (String × Option Expr) := []
  restKeywords : Option String := none
  defaults : List Expr := []
  /-- After `*`, further parameters are given by name only. -/
  starred : Bool := false
  /-- A bare `*` needs a named parameter behind it. -/
  pendingStar : Bool := false

def defaultValue : Parser (Option Expr) := do
  if ← accept "=" then return some (← parseExpr parse .expression) else return none

def signatureFrom : Nat → Signature → Parser Signature
  | 0, _ => failure
  | fuel + 1, sig => do
    if ← atSymbol ":" then
      if sig.pendingStar then failure else return sig
    else if sig.restKeywords.isSome then failure
    else
      let sig ← (do
        if ← accept "**" then
          if sig.pendingStar then failure
          return { sig with restKeywords := some (← identifier) }
        else if ← accept "*" then
          if sig.starred then failure
          if ← atSymbol "," then return { sig with starred := true, pendingStar := true }
          else return { sig with starred := true, rest := some (← identifier) }
        else if ← accept "/" then
          if sig.starred || !sig.positionalOnly.isEmpty || sig.positional.isEmpty then failure
          return { sig with positionalOnly := sig.positional, positional := [] }
        else
          let name ← identifier
          let value ← defaultValue parse
          if sig.starred then
            return { sig with
              keywordOnly := sig.keywordOnly ++ [(name, value)], pendingStar := false }
          else
            match value with
            | some v =>
              return { sig with
                positional := sig.positional ++ [name], defaults := sig.defaults ++ [v] }
            | none =>
              if sig.defaults.isEmpty then
                return { sig with positional := sig.positional ++ [name] }
              else failure)
      if ← accept "," then signatureFrom fuel sig
      else if ← atSymbol ":" then signatureFrom fuel sig
      else failure

def lambdaRule : Parser Expr := do
  let sig ← signatureFrom parse ((← get).rest.length + 1) {}
  expect ":"
  let body ← parseExpr parse .expression
  return .lambda
    ⟨sig.positionalOnly, sig.positional, sig.rest, sig.keywordOnly, sig.restKeywords,
      sig.defaults⟩ body

def atAssignment : Parser Bool := do
  match ← peek, ← peekSecond with
  | some (.name _), some (.symbol ":=") => return true
  | _, _ => return false

def expressionRule : Parser Node := do
  if ← atWord "lambda" then
    spanned do
      let _ ← next
      lambdaRule parse
  else
    let start ← startOffset
    let yes ← parse .disjunction
    let tail : Parser Node := do
      expectWord "if"
      let test ← parseExpr parse .disjunction
      expectWord "else"
      let no ← parseExpr parse .expression
      return Node.of (.conditional test yes.expr no) start (← get).stop
    tail <|> pure yes

def namedRule : Parser Node := do
  if ← atAssignment then
    spanned do
      let target ← identifier
      expect ":="
      return .assignment target (← parseExpr parse .expression)
  else parse .expression

def starRule (plain : Goal) : Parser Node := do
  if ← atSymbol "*" then
    spanned do
      let _ ← next
      return .starred (← parseExpr parse (.operation 0))
  else parse plain

def tupleRule (item : Goal) : Parser Node := do
  let start ← startOffset
  let first ← parse item
  if ← atSymbol "," then
    let rest ← moreItems (parseExpr parse item)
    return Node.of (.display .tuple (first.expr :: rest)) start (← get).stop
  else return first

def booleanRule (any : Bool) (word : String) (operand : Goal) : Parser Node := do
  let start ← startOffset
  let first ← parse operand
  let rest ← repeated do
    if ← acceptWord word then return some (← parseExpr parse operand) else return none
  if rest.isEmpty then return first
  else return Node.of (.boolean any (first.expr :: rest)) start (← get).stop

def inversionRule : Parser Node := do
  if ← atWord "not" then
    spanned do
      let _ ← next
      return .unary .not (← parseExpr parse .inversion)
  else parse .comparison

def comparisonRule : Parser Node := do
  let start ← startOffset
  let first ← parse (.operation 0)
  let rest ← repeated do
    match ← comparisonAt with
    | some op => return some (op, ← parseExpr parse (.operation 0))
    | none => return none
  if rest.isEmpty then return first
  else return Node.of (.compare first.expr rest) start (← get).stop

def operationRule (level : Nat) : Parser Node := do
  if level ≥ operators.length then parse .factor
  else
    let start ← startOffset
    let first ← parse (.operation (level + 1))
    let rest ← repeated do
      match ← binaryAt level with
      | some op => return some (op, ← parseExpr parse (.operation (level + 1)))
      | none => return none
    if rest.isEmpty then return first
    else
      return Node.of (rest.foldl (fun left (op, right) => .binary op left right) first.expr)
        start (← get).stop

def factorRule : Parser Node := do
  let op : Option UnaryOp := match ← peek with
    | some (.symbol "-") => some .negate
    | some (.symbol "+") => some .plus
    | some (.symbol "~") => some .invert
    | _ => none
  match op with
  | some op =>
    spanned do
      let _ ← next
      return .unary op (← parseExpr parse .factor)
  | none => parse .power

def powerRule : Parser Node := do
  let start ← startOffset
  let base ← parse .awaited
  if ← accept "**" then
    let exponent ← parseExpr parse .factor
    return Node.of (.binary .power base.expr exponent) start (← get).stop
  else return base

def awaitedRule : Parser Node := do
  if ← atWord "await" then
    spanned do
      let _ ← next
      return .await (← parseExpr parse .primary)
  else parse .primary

inductive Argument
  | positional (e : Expr) (span : Span)
  | keyword (name : Option String) (e : Expr)
  /-- A generator, which as the only argument needs no brackets of its own. -/
  | generator (e : Expr)

def argument : Parser Argument := do
  if ← accept "*" then return .positional (.starred (← parseExpr parse .expression)) ⟨0, 0⟩
  else if ← accept "**" then return .keyword none (← parseExpr parse .expression)
  else
    match ← peek, ← peekSecond with
    | some (.name _), some (.symbol "=") =>
      let name ← identifier
      expect "="
      return .keyword (some name) (← parseExpr parse .expression)
    | _, _ =>
      let node ← parse .named
      if ← atClause then
        let cs ← clauses parse
        if ← atSymbol ")" then return .generator (.collect .generator node.expr cs) else failure
      else if ← atSymbol "=" then failure
      else return .positional node.expr node.span

/-- Positional arguments come first, unless spread; nothing is spread by position after a
spread mapping. -/
def argumentsInOrder : List Argument → Bool → Bool → Bool
  | [], _, _ => true
  | .positional (.starred _) _ :: rest, named, spread =>
    !spread && argumentsInOrder rest named spread
  | .positional _ _ :: rest, named, spread => !named && argumentsInOrder rest named spread
  | .keyword (some _) _ :: rest, _, spread => argumentsInOrder rest true spread
  | .keyword none _ :: rest, _, _ => argumentsInOrder rest true true
  | .generator _ :: _, _, _ => false

def subscriptItem : Parser Expr := do
  if ← accept "*" then return .starred (← parseExpr parse .expression)
  else if ← atAssignment then parseExpr parse .named
  else
    let bound : Parser (Option Expr) := do
      if (← atSymbol ":") || (← atSymbol "]") || (← atSymbol ",") then return none
      else return some (← parseExpr parse .expression)
    let start ← bound
    if ← accept ":" then
      let stop ← bound
      let step ← (do if ← accept ":" then bound else return none)
      return .slice start stop step
    else
      match start with
      | some e => return e
      | none => failure

def subscriptIndex : Parser Expr := do
  let first ← subscriptItem parse
  if ← accept "]" then
    return if isStarred first then .display .tuple [first] else first
  else
    expect ","
    let rest ← itemsUntil "]" (subscriptItem parse)
    return .display .tuple (first :: rest)

/-- Attribute accesses, calls and subscripts behind an expression. -/
def trailers (start : Nat) : Nat → Node → Parser Node
  | 0, _ => failure
  | fuel + 1, node => do
    if ← accept "." then
      let name ← identifier
      trailers start fuel (Node.of (.attribute node.expr name) start (← get).stop)
    else if ← atSymbol "(" then
      let opening ← startOffset
      let _ ← next
      let arguments ← itemsUntil ")" (argument parse)
      let stop := (← get).stop
      match arguments with
      | [.generator g] =>
        trailers start fuel ⟨.call node.expr [g] [], ⟨start, stop⟩, [⟨opening, stop⟩]⟩
      | _ =>
        if !argumentsInOrder arguments false false then failure
        let positional := arguments.filterMap fun
          | .positional e span => some (e, span)
          | _ => none
        let keywords := arguments.filterMap fun
          | .keyword label e => some (label, e)
          | _ => none
        trailers start fuel ⟨.call node.expr (positional.map (·.1)) keywords,
          ⟨start, stop⟩, positional.map (·.2)⟩
    else if ← accept "[" then
      let index ← subscriptIndex parse
      trailers start fuel (Node.of (.subscript node.expr index) start (← get).stop)
    else return node

def primaryRule : Parser Node := do
  let start ← startOffset
  let head ← parse .atom
  trailers parse start ((← get).rest.length + 1) head

def yieldRule : Parser Expr := do
  if ← acceptWord "from" then return .yieldedFrom (← parseExpr parse .expression)
  else if ← atSymbol ")" then return .yielded none
  else return .yielded (some (← parseExpr parse .starExpressions))

/-- Behind an opening parenthesis; the flag tells whether it only groups. -/
def parenthesized : Parser (Node × Bool) := do
  let wrap (e : Expr) : Parser (Node × Bool) := do return (Node.of e 0 (← get).stop, false)
  if ← accept ")" then wrap (.display .tuple [])
  else if ← atWord "yield" then
    let node ← spanned do
      let _ ← next
      yieldRule parse
    expect ")"
    return (node, true)
  else
    let first ← parse .starNamed
    if ← accept "," then
      let rest ← itemsUntil ")" (parseExpr parse .starNamed)
      wrap (.display .tuple (first.expr :: rest))
    else if ← atClause then
      if isStarred first.expr then failure
      let cs ← clauses parse
      expect ")"
      wrap (.collect .generator first.expr cs)
    else
      expect ")"
      if isStarred first.expr then failure
      return (first, true)

/-- Behind an opening bracket or brace: items or a comprehension. -/
def bracketed (closer : String) (kind : Display) (collector : Collector) (first : Expr) :
    Parser Expr := do
  if ← atClause then
    if isStarred first then failure
    let cs ← clauses parse
    expect closer
    return .collect collector first cs
  else
    let rest ← moreItems (parseExpr parse .starNamed)
    expect closer
    return .display kind (first :: rest)

def dictEntry : Parser (Option Expr × Expr) := do
  if ← accept "**" then return (none, ← parseExpr parse (.operation 0))
  else
    let key ← parseExpr parse .expression
    expect ":"
    return (some key, ← parseExpr parse .expression)

def braced : Parser Expr := do
  if ← accept "\x7d" then return .dict []
  else if ← atSymbol "**" then return .dict (← itemsUntil "\x7d" (dictEntry parse))
  else
    let assigned ← atAssignment
    let first ← parseExpr parse .starNamed
    if ← accept ":" then
      if isStarred first || assigned then failure
      let value ← parseExpr parse .expression
      if ← atClause then
        let cs ← clauses parse
        expect "\x7d"
        return .collectDict first value cs
      else if ← accept "," then
        return .dict ((some first, value) :: (← itemsUntil "\x7d" (dictEntry parse)))
      else
        expect "\x7d"
        return .dict [(some first, value)]
    else bracketed parse "\x7d" .set .set first

def fieldExpr (code : List Char) : Option Expr := do
  let lexemes ← lexemes? ('(' :: code ++ [')'])
  let (node, _) ← (parse .starExpressions).run ⟨lexemes, 0⟩
  return node.expr

def decodeFragment (raw : Bool) (s : List Char) : Option String :=
  if raw then some (String.ofList s) else (Expr.Escapes.decodeText 0 s).map String.ofList

mutual

def fragmentsOf (raw : Bool) : List Expr.Interpolation.Part → Option (List (Fragment Expr))
  | [] => some []
  | p :: ps => do
    let first ← fragmentOf raw p
    let rest ← fragmentsOf raw ps
    return first ++ rest

def fragmentOf (raw : Bool) : Expr.Interpolation.Part → Option (List (Fragment Expr))
  | .literal s => do return [.text (← decodeFragment raw s)]
  | .field code shown conversion format => do
    let value ← fieldExpr parse code
    let lead := match shown with
      | some s => [Fragment.text (String.ofList s)]
      | none => []
    match format with
    | none => return lead ++ [.field value conversion none]
    | some ps =>
      let inner ← fragmentsOf raw ps
      return lead ++ [.field value conversion (some (.interpolated inner))]

end

def stringPart (style : QuotePrefix) (body : List Char) : Option (List (Fragment Expr)) := do
  if style.formatted then fragmentsOf parse style.raw (← Expr.Interpolation.split? style.raw body)
  else return [.text (← decodeFragment style.raw body)]

def stringsRule : Parser Expr := do
  let parts ← repeated do
    match ← peek with
    | some (.string style body) =>
      let _ ← next
      return some (style, body)
    | _ => return none
  if parts.all fun p => p.1.bytes then
    let bytes ← parts.mapM fun (style, body) =>
      (if style.raw then Expr.Escapes.rawBytes body else Expr.Escapes.decodeBytes 0 body : Option _)
    return .literal (.bytes bytes.flatten)
  else if parts.any fun p => p.1.bytes then failure
  else
    let pieces ← parts.mapM fun (style, body) => (stringPart parse style body : Option _)
    if parts.any fun p => p.1.formatted then return .interpolated pieces.flatten
    else
      return .literal (.text (String.join (pieces.flatten.map fun
        | .text s => s
        | .field .. => "")))

def atomRule : Parser Node := do
  match ← peek with
  | some (.symbol "(") =>
    let start ← startOffset
    let _ ← next
    let (node, grouped) ← parenthesized parse
    return if grouped then node else Node.of node.expr start node.span.stop
  | some (.symbol "[") =>
    spanned do
      let _ ← next
      if ← accept "]" then return .display .list []
      else bracketed parse "]" .list .list (← parseExpr parse .starNamed)
  | some (.symbol "\x7b") =>
    spanned do
      let _ ← next
      braced parse
  | some (.symbol "...") =>
    spanned do
      let _ ← next
      return .literal .ellipsis
  | some (.string ..) => spanned (stringsRule parse)
  | some (.number value) =>
    spanned do
      let _ ← next
      return .literal value
  | some (.name s) =>
    spanned do
      let _ ← next
      match s with
      | "None" => return .literal .none
      | "True" => return .literal .true
      | "False" => return .literal .false
      | _ => if reservedWords.contains s then failure else return .name (Text.normalForm s)
  | _ => failure

def targetRule : Parser Node := do
  if ← atSymbol "*" then
    spanned do
      let _ ← next
      if ← atSymbol "*" then failure
      return .starred (← parseExpr parse .target)
  else
    let node ← parse .primary
    if isTarget false node.expr then return node else failure

def rule : Goal → Parser Node
  | .expression => expressionRule parse
  | .expressions => tupleRule parse .expression
  | .named => namedRule parse
  | .starNamed => starRule parse .named
  | .starExpression => starRule parse .expression
  | .starExpressions => tupleRule parse .starExpression
  | .disjunction => booleanRule parse true "or" .conjunction
  | .conjunction => booleanRule parse false "and" .inversion
  | .inversion => inversionRule parse
  | .comparison => comparisonRule parse
  | .operation level => operationRule parse level
  | .factor => factorRule parse
  | .power => powerRule parse
  | .awaited => awaitedRule parse
  | .primary => primaryRule parse
  | .atom => atomRule parse
  | .target => targetRule parse
  | .targets => tupleRule parse .target

end Rules

def parseWithin : Nat → Goal → Parser Node
  | 0, _ => failure
  | fuel + 1, g => rule (parseWithin fuel) g

def depthFor (length : Nat) : Nat := 32 * (length + 2)

/-- Reads all lexemes of a text with a parser for it. -/
def readAll (text : List Char) (p : (Goal → Parser Node) → Parser α) : Option α :=
  match lexemes? text with
  | none => none
  | some lexemes =>
    match (p (parseWithin (depthFor text.length))).run ⟨lexemes, 0⟩ with
    | some (a, ⟨[], _⟩) => some a
    | _ => none

end Stencil.Grammar
