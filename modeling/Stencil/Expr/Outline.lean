import Stencil.Expr.Basic

/-!
# Outlines of expressions

The tree of constructs an expression is built from, each with what there is to check about it.
Checks that go over a whole expression are stated on its outline; the first offence is the one
highest in the tree, and on one level the one furthest to the left.
-/

namespace Stencil

def Parameters.names {ε : Type} (p : Parameters ε) : List String :=
  p.positionalOnly ++ p.positional ++ p.keywordOnly.map (·.1) ++ p.rest.toList ++
    p.restKeywords.toList

namespace Expr

inductive Construct
  | plain
  | name (id : String)
  | attribute (name : String)
  | assignment | await | yielding | yieldingFrom
  | call (keywords : List (Option String))
  | lambda (parameters : List String)
  | comprehension (kind : Collector) (asynchronous : Bool)
  | clause (target : Expr)
deriving Repr

inductive Outline
  | node (construct : Construct) (parts : List Outline)
deriving Repr

mutual

def outline : Expr → Outline
  | .literal _ => .node .plain []
  | .name id => .node (.name id) []
  | .interpolated fragments => .node .plain (ofFragments fragments)
  | .display _ items => .node .plain (ofList items)
  | .dict entries => .node .plain (keysOf entries ++ valuesOf entries)
  | .starred value => .node .plain [outline value]
  | .unary _ operand => .node .plain [outline operand]
  | .binary _ left right => .node .plain [outline left, outline right]
  | .boolean _ operands => .node .plain (ofList operands)
  | .compare first rest => .node .plain (outline first :: ofComparisons rest)
  | .conditional test yes no => .node .plain [outline test, outline yes, outline no]
  | .attribute value label => .node (.attribute label) [outline value]
  | .subscript value index => .node .plain [outline value, outline index]
  | .slice start stop step => .node .plain (ofOption start ++ ofOption stop ++ ofOption step)
  | .call function arguments keywords =>
    .node (.call (keywords.map (·.1)))
      (outline function :: ofList arguments ++ ofKeywords keywords)
  | .lambda parameters body =>
    .node (.lambda parameters.names) [ofParameters parameters, outline body]
  | .collect kind element clauses =>
    .node (.comprehension kind (clauses.any (·.asynchronous)))
      (outline element :: ofClauses clauses)
  | .collectDict key value clauses =>
    .node (.comprehension .set (clauses.any (·.asynchronous)))
      (outline key :: outline value :: ofClauses clauses)
  | .assignment target value => .node .assignment [.node (.name target) [], outline value]
  | .await value => .node .await [outline value]
  | .yielded value => .node .yielding (ofOption value)
  | .yieldedFrom value => .node .yieldingFrom [outline value]

def ofList : List Expr → List Outline
  | [] => []
  | e :: es => outline e :: ofList es

def ofOption : Option Expr → List Outline
  | none => []
  | some e => [outline e]

def ofFragments : List (Fragment Expr) → List Outline
  | [] => []
  | f :: fs => ofFragment f :: ofFragments fs

def ofFragment : Fragment Expr → Outline
  | .text _ => .node .plain []
  | .field value _ format => .node .plain (outline value :: ofOption format)

def keysOf : List (Option Expr × Expr) → List Outline
  | [] => []
  | e :: es => keyOf e ++ keysOf es

def keyOf : Option Expr × Expr → List Outline
  | (key, _) => ofOption key

def valuesOf : List (Option Expr × Expr) → List Outline
  | [] => []
  | e :: es => valueOf e :: valuesOf es

def valueOf : Option Expr × Expr → Outline
  | (_, value) => outline value

def ofComparisons : List (CompareOp × Expr) → List Outline
  | [] => []
  | c :: cs => ofComparison c :: ofComparisons cs

def ofComparison : CompareOp × Expr → Outline
  | (_, e) => outline e

def ofKeywords : List (Option String × Expr) → List Outline
  | [] => []
  | k :: ks => ofKeyword k :: ofKeywords ks

def ofKeyword : Option String × Expr → Outline
  | (_, e) => .node .plain [outline e]

def ofClauses : List (Clause Expr) → List Outline
  | [] => []
  | c :: cs => ofClause c :: ofClauses cs

def ofClause : Clause Expr → Outline
  | ⟨target, source, conditions, _⟩ =>
    .node (.clause target) (outline target :: outline source :: ofList conditions)

def ofParameters : Parameters Expr → Outline
  | ⟨_, _, _, keywordOnly, _, defaults⟩ =>
    .node .plain (ofKeywordOnly keywordOnly ++ ofList defaults)

def ofKeywordOnly : List (String × Option Expr) → List Outline
  | [] => []
  | p :: ps => keywordDefault p ++ ofKeywordOnly ps

def keywordDefault : String × Option Expr → List Outline
  | (_, value) => ofOption value

end

end Expr

namespace Expr.Outline

def construct : Outline → Construct
  | .node m _ => m

def parts : Outline → List Outline
  | .node _ ps => ps

mutual

def depth : Outline → Nat
  | .node _ ps => 1 + depths ps

def depths : List Outline → Nat
  | [] => 0
  | o :: os => max (depth o) (depths os)

end

/-- The first construct that `check` answers, level by level; the fuel is the number of levels. -/
def searchLevels {α : Type} (check : Construct → Option α) : Nat → List Outline → Option α
  | 0, _ => none
  | fuel + 1, level =>
    match level.findSome? fun o => check o.construct with
    | some a => some a
    | none => if level.isEmpty then none else searchLevels check fuel (level.flatMap parts)

def first? {α : Type} (check : Construct → Option α) (o : Outline) : Option α :=
  searchLevels check (depth o + 1) [o]

end Expr.Outline

namespace Expr

/-- Whether the name occurs anywhere in an expression, as a target or a value. -/
def mentions (id : String) (e : Expr) : Bool :=
  (e.outline.first? fun
    | .name n => if n = id then some () else none
    | _ => none).isSome

/-- Constructs that have no place in a template expression. -/
inductive Forbidden
  | assignment | await | yielding | yieldingFrom
  | hiddenAttribute (name : String)
deriving DecidableEq, Repr

def forbidden? : Construct → Option Forbidden
  | .assignment => some .assignment
  | .await => some .await
  | .yielding => some .yielding
  | .yieldingFrom => some .yieldingFrom
  | .attribute label =>
    if "__".isPrefixOf label then some (.hiddenAttribute label) else none
  | _ => none

def firstForbidden? (e : Expr) : Option Forbidden := e.outline.first? forbidden?

inductive Senseless
  | repeatedKeyword (name : String)
  | duplicateParameter (name : String)
  | asynchronous
  | bareStarredTarget
  | severalStarredTargets
  | reservedKeyword
deriving DecidableEq, Repr

namespace Senseless

def message : Senseless → String
  | repeatedKeyword label => "keyword argument repeated: " ++ label
  | duplicateParameter label => "duplicate argument '_l_" ++ label ++ "' in function definition"
  | asynchronous => "asynchronous comprehension outside of an asynchronous function"
  | bareStarredTarget => "starred assignment target must be in a list or tuple"
  | severalStarredTargets => "multiple starred expressions in assignment"
  | reservedKeyword => "cannot assign to __debug__"

end Senseless

def firstRepeated : List String → Option String
  | [] => none
  | n :: ns => if ns.contains n then some n else firstRepeated ns

mutual

def targetProblem? (nested : Bool) : Expr → Option Senseless
  | .starred t => if nested then targetProblem? false t else some .bareStarredTarget
  | .display _ items =>
    if (items.filter fun
      | .starred _ => true
      | _ => false).length > 1 then some .severalStarredTargets
    else itemsProblem? items
  | _ => none

def itemsProblem? : List Expr → Option Senseless
  | [] => none
  | e :: es =>
    match targetProblem? true e with
    | some p => some p
    | none => itemsProblem? es

end

def senseless? : Construct → Option Senseless
  | .call keywords =>
    let names := keywords.filterMap id
    if names.contains "__debug__" then some .reservedKeyword
    else (firstRepeated names).map .repeatedKeyword
  | .lambda parameters => (firstRepeated parameters).map .duplicateParameter
  | .comprehension kind asynchronous =>
    if asynchronous && kind ≠ .generator then some .asynchronous else none
  | .clause target => targetProblem? false target
  | _ => none

def firstSenseless? (e : Expr) : Option Senseless := e.outline.first? senseless?

end Expr

end Stencil
