import Stencil.Proofs.Moments

/-!
# Where expressions stand

The expressions inside an expression, each with the comprehensions and anonymous functions it is
inside of and with what these make of names at that place: the first source of a comprehension
and the defaults of a function lie outside, a later source sees the targets in front of it, a
condition also those of its own clause. Likewise the expressions inside the nodes of a template,
each with the loops it is inside of; the source of a loop lies outside.
-/

namespace Stencil

/-- What a local scope is apart from the values of its variables: the names that mean them at the
place in question, and those it ever binds. -/
structure Shade where
  active : List String
  bound : List String
deriving DecidableEq, Repr

def LocalScope.shade (l : LocalScope) : Shade := ⟨l.active, l.bound⟩

/-- The local scopes around an expression, innermost first. -/
def Scope.context (s : Scope) : List Shade := s.locals.map LocalScope.shade

namespace Shade

def ofParameters (p : Parameters Expr) : Shade := ⟨p.names, p.names⟩

/-- In a comprehension, where the targets of the first `n` clauses are visible. -/
def after (clauses : List (Clause Expr)) (n : Nat) : Shade where
  active := (clauses.take n).flatMap (·.target.occurringNames)
  bound := clauses.flatMap (·.target.storedNames)

end Shade

namespace Expr

mutual

def isNames : Expr → Bool
  | .name _ => true
  | .starred target => isNames target
  | .display _ targets => areNames targets
  | _ => false

def areNames : List Expr → Bool
  | [] => true
  | t :: ts => isNames t && areNames ts

end

mutual

def loads : Expr → List Expr
  | .starred target => loads target
  | .display _ targets => loadsOfAll targets
  | .subscript container index => [container, index]
  | .attribute container _ => [container]
  | _ => []

def loadsOfAll : List Expr → List Expr
  | [] => []
  | t :: ts => loads t ++ loadsOfAll ts

end

mutual

theorem loads_of_isNames : ∀ e : Expr, e.isNames = true → e.loads = []
  | .name _, _ => rfl
  | .starred target, h => by
    rw [isNames] at h
    rw [loads, loads_of_isNames target h]
  | .display _ targets, h => by
    rw [isNames] at h
    rw [loads, loadsOfAll_of_areNames targets h]

theorem loadsOfAll_of_areNames : ∀ es : List Expr, areNames es = true → loadsOfAll es = []
  | [], _ => rfl
  | e :: es, h => by
    rw [areNames, Bool.and_eq_true] at h
    rw [loadsOfAll, loads_of_isNames e h.1, loadsOfAll_of_areNames es h.2]
    rfl

end

mutual

theorem occurringNames_of_isNames : ∀ e : Expr, e.isNames = true →
    e.occurringNames = e.storedNames
  | .name _, _ => rfl
  | .starred target, h => by
    rw [isNames] at h
    have ih := occurringNames_of_isNames target h
    rw [storedNames, ← ih]
    exact List.append_nil _
  | .display _ targets, h => by
    rw [isNames] at h
    rw [storedNames, ← occurringNamesOfAll_of_areNames targets h]
    rfl

theorem occurringNamesOfAll_of_areNames : ∀ es : List Expr, areNames es = true →
    Outline.namesOfAll (ofList es) = storedNamesOfAll es
  | [], _ => rfl
  | e :: es, h => by
    rw [areNames, Bool.and_eq_true] at h
    have ih := occurringNames_of_isNames e h.1
    rw [storedNamesOfAll, ← ih, ← occurringNamesOfAll_of_areNames es h.2]
    rfl

end

/-- The expressions that are evaluated on behalf of another one, in the same scope. -/
def parts : Expr → List Expr
  | .literal _ | .name _ => []
  | .interpolated fragments => fragments.flatMap fun
    | .text _ => []
    | .field value _ format => value :: format.toList
  | .display _ items => items
  | .dict entries => entries.flatMap fun (key, value) => key.toList ++ [value]
  | .starred e | .unary _ e | .attribute e _ | .assignment _ e | .await e | .yieldedFrom e => [e]
  | .binary _ a b | .subscript a b => [a, b]
  | .boolean _ operands => operands
  | .compare first rest => first :: rest.map (·.2)
  | .conditional test yes no => [test, yes, no]
  | .slice start stop step => start.toList ++ stop.toList ++ step.toList
  | .call function arguments keywords => function :: (arguments ++ keywords.map (·.2))
  | .lambda parameters _ => parameters.defaults ++ parameters.keywordOnly.filterMap (·.2)
  | .collect _ _ clauses | .collectDict _ _ clauses => (clauses.take 1).map (·.source)
  | .yielded value => value.toList

def comprehension? : Expr → Option (Product × List (Clause Expr))
  | .collect _ element clauses => some (.element element, clauses)
  | .collectDict key value clauses => some (.pair key value, clauses)
  | _ => none

end Expr

def Product.parts : Product → List Expr
  | .element e => [e]
  | .pair key value => [key, value]

/-- An expression of a comprehension stands where the targets of the first so many clauses are
visible. -/
inductive Clause.Holds (product : Product) (clauses : List (Clause Expr)) : Nat → Expr → Prop
  | product {e : Expr} (he : e ∈ product.parts) : Holds product clauses clauses.length e
  | source {i : Nat} {c : Clause Expr} (hc : clauses[i + 1]? = some c) :
      Holds product clauses (i + 1) c.source
  | condition {i : Nat} {c : Clause Expr} {e : Expr} (hc : clauses[i]? = some c)
      (he : e ∈ c.conditions) : Holds product clauses (i + 1) e
  | target {i : Nat} {c : Clause Expr} {e : Expr} (hc : clauses[i]? = some c)
      (he : e ∈ c.target.loads) : Holds product clauses (i + 1) e

/-- Inside an expression, which is inside some local scopes, stands another one, inside others. -/
inductive Expr.Holds : List Shade → Expr → List Shade → Expr → Prop
  | self {context : List Shade} {e : Expr} : Holds context e context e
  | part {context context' : List Shade} {e part f : Expr} (hp : part ∈ e.parts)
      (h : Holds context part context' f) : Holds context e context' f
  | body {context context' : List Shade} {parameters : Parameters Expr} {body f : Expr}
      (h : Holds (.ofParameters parameters :: context) body context' f) :
      Holds context (.lambda parameters body) context' f
  | clause {context context' : List Shade} {e part f : Expr} {product : Product}
      {clauses : List (Clause Expr)} {n : Nat} (he : e.comprehension? = some (product, clauses))
      (hp : Clause.Holds product clauses n part)
      (h : Holds (.after clauses n :: context) part context' f) : Holds context e context' f

/-- Among some nodes, which are inside some loops, stands an expression, inside others. -/
inductive Node.Holds : List LoopScope → List Node → List LoopScope → Expr → Prop
  | shown {loops : List LoopScope} {ns : List Node} {p : Text.Position} {code : Code}
      {escaped : Bool} (h : .output p code escaped ∈ ns) : Holds loops ns loops code.expr
  | given {loops : List LoopScope} {ns : List Node} {p : Text.Position} {name : String}
      {code : Code} (h : .including p name (some code) ∈ ns) : Holds loops ns loops code.expr
  | test {loops : List LoopScope} {ns : List Node} {p : Text.Position} {t : Code}
      {body otherwise : List Node} {others : List (Code × List Node)}
      (h : .conditional p t body others otherwise ∈ ns) : Holds loops ns loops t.expr
  | taken {loops loops' : List LoopScope} {ns : List Node} {p : Text.Position} {t : Code}
      {body otherwise : List Node} {others : List (Code × List Node)} {e : Expr}
      (h : .conditional p t body others otherwise ∈ ns) (he : Holds loops body loops' e) :
      Holds loops ns loops' e
  | otherTest {loops : List LoopScope} {ns : List Node} {p : Text.Position} {t t' : Code}
      {body body' otherwise : List Node} {others : List (Code × List Node)}
      (h : .conditional p t body others otherwise ∈ ns) (ho : (t', body') ∈ others) :
      Holds loops ns loops t'.expr
  | otherTaken {loops loops' : List LoopScope} {ns : List Node} {p : Text.Position} {t t' : Code}
      {body body' otherwise : List Node} {others : List (Code × List Node)} {e : Expr}
      (h : .conditional p t body others otherwise ∈ ns) (ho : (t', body') ∈ others)
      (he : Holds loops body' loops' e) : Holds loops ns loops' e
  | otherwise {loops loops' : List LoopScope} {ns : List Node} {p : Text.Position} {t : Code}
      {body otherwise : List Node} {others : List (Code × List Node)} {e : Expr}
      (h : .conditional p t body others otherwise ∈ ns) (he : Holds loops otherwise loops' e) :
      Holds loops ns loops' e
  | source {loops : List LoopScope} {ns : List Node} {p : Text.Position} {k : LoopKeyword}
      {target source : Code} {body : List Node} (h : .loop p k target source body ∈ ns) :
      Holds loops ns loops source.expr
  | target {loops : List LoopScope} {ns : List Node} {p : Text.Position} {k : LoopKeyword}
      {target source : Code} {body : List Node} {e : Expr} (h : .loop p k target source body ∈ ns)
      (he : e ∈ target.expr.loads) : Holds loops ns loops e
  | pass {loops loops' : List LoopScope} {ns : List Node} {p : Text.Position} {k : LoopKeyword}
      {target source : Code} {body : List Node} {e : Expr} (h : .loop p k target source body ∈ ns)
      (he : Holds (Render.loopScope p target body :: loops) body loops' e) :
      Holds loops ns loops' e
  | again {loops : List LoopScope} {ns : List Node} {p : Text.Position} {t : Code}
      {body : List Node} (h : .whileLoop p t body ∈ ns) : Holds loops ns loops t.expr
  | whilePass {loops loops' : List LoopScope} {ns : List Node} {p : Text.Position} {t : Code}
      {body : List Node} {e : Expr} (h : .whileLoop p t body ∈ ns)
      (he : Holds loops body loops' e) : Holds loops ns loops' e

theorem Node.Holds.mono {loops loops' : List LoopScope} {ns ms : List Node} {e : Expr}
    (h : Node.Holds loops ns loops' e) (hsub : ∀ n ∈ ns, n ∈ ms) :
    Node.Holds loops ms loops' e := by
  cases h with
  | shown h => exact .shown (hsub _ h)
  | given h => exact .given (hsub _ h)
  | test h => exact .test (hsub _ h)
  | taken h he => exact .taken (hsub _ h) he
  | otherTest h ho => exact .otherTest (hsub _ h) ho
  | otherTaken h ho he => exact .otherTaken (hsub _ h) ho he
  | otherwise h he => exact .otherwise (hsub _ h) he
  | source h => exact .source (hsub _ h)
  | target h he => exact .target (hsub _ h) he
  | pass h he => exact .pass (hsub _ h) he
  | again h => exact .again (hsub _ h)
  | whilePass h he => exact .whilePass (hsub _ h) he

/-- In a body of a template stands an expression, inside some loops and local scopes. -/
def Template.Holds (t : Template) (loops : List LoopScope) (context : List Shade) (e : Expr) :
    Prop :=
  ∃ ns ∈ t.tree.bodies, ∃ whole, Node.Holds [] ns loops whole ∧ Expr.Holds [] whole context e

end Stencil
