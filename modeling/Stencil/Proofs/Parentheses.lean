import Stencil.Proofs.LocalGoals

/-!
# Parentheses around a text

An atom that nothing follows is what every goal reads there, so an expression in parentheses is the
one that is read between them. Reading a row of items alone and reading it between parentheses are
compared item by item.
-/

namespace Stencil.Grammar

open Stencil.Expr (Lexeme LexemeKind)
open Stencil.Grammar.Parser

/-- Nothing, or a lexeme that goes on with no expression that an atom begins. -/
inductive Quiet : Option LexemeKind → Prop
  | nothing : Quiet none
  | closer : Quiet (some (.symbol ")"))
  | assigns : Quiet (some (.symbol ":="))

inductive Opening : LexemeKind → Prop
  | group : Opening (.symbol "(")
  | word (s : String) : Opening (.name s)

def outcome (p : Parser Node) (c : Cursor) : Option (Expr × Cursor) :=
  (p.run c).map fun r => (r.1.expr, r.2)

/-- Nothing is read, or what is read is followed by nothing that goes on with it. -/
def Final (o : Option (Expr × Cursor)) : Prop :=
  ∀ r ∈ o, Quiet (r.2.rest.head?.map (·.kind))

def Always (g : Goal) (c : Cursor) (o : Option (Expr × Cursor)) : Prop :=
  ∃ m, ∀ n, m ≤ n → outcome (parseWithin n g) c = o

section

variable {c : Cursor} {k : LexemeKind} {o : Option (Expr × Cursor)}

theorem outcome_start {p : Nat → Parser Node} (h : outcome (p ((c.rest.head?.map (·.start)).getD 0)) c = o) :
    outcome (do
      let start ← startOffset
      p start) c = o := h

theorem outcome_bind {p : Parser Node} {f : Node → Parser Node} (hp : outcome p c = o)
    (hf : ∀ x c', (x.expr, c') ∈ o → (f x).run c' = some (x, c')) : outcome (p >>= f) c = o := by
  unfold outcome at hp ⊢
  rw [StateT.run_bind]
  cases hrun : p.run c with
  | none =>
    rw [hrun] at hp
    exact hp
  | some r =>
    rw [hrun, Option.map_some] at hp
    subst hp
    rw [Option.bind_eq_bind, Option.bind_some, hf r.1 r.2 rfl]
    rfl

theorem outcome_if {b : Parser Bool} {p q : Parser Node} (hb : b.run c = some (false, c))
    (hq : outcome q c = o) : outcome (do if ← b then p else q) c = o := by
  unfold outcome at hq ⊢
  rw [StateT.run_bind, hb]
  exact hq

theorem peek_run (c : Cursor) : peek.run c = some (c.rest.head?.map (·.kind), c) := rfl

theorem atWord_run (c : Cursor) (s : String) :
    (atWord s).run c = some (decide (c.rest.head?.map (·.kind) = some (.name s)), c) := by
  simp [atWord, peek]

theorem atSymbol_run (c : Cursor) (s : String) :
    (atSymbol s).run c = some (decide (c.rest.head?.map (·.kind) = some (.symbol s)), c) := by
  simp [atSymbol, peek]

theorem repeated_none {α : Type} {p : Parser (Option α)} (h : p.run c = some (none, c)) :
    (repeated p).run c = some ([], c) := by
  have hget : (get : Parser Cursor).run c = some (c, c) := rfl
  rw [repeated, StateT.run_bind, hget, Option.bind_eq_bind, Option.bind_some, repeatFrom,
    StateT.run_bind, h]
  rfl

section

variable (hc : Quiet (c.rest.head?.map (·.kind)))

include hc

theorem Quiet.atSymbol {s : String} (hs : s ∉ [")", ":="]) : (atSymbol s).run c = some (false, c) := by
  rw [atSymbol_run]
  generalize c.rest.head?.map (·.kind) = a at hc
  rw [List.mem_cons, List.mem_singleton, not_or] at hs
  cases hc with
  | nothing => rfl
  | closer => simpa using Ne.symm hs.1
  | assigns => simpa using Ne.symm hs.2

theorem Quiet.accept {s : String} (hs : s ∉ [")", ":="]) : (accept s).run c = some (false, c) := by
  rw [Parser.accept, StateT.run_bind, Quiet.atSymbol hc hs]
  rfl

theorem Quiet.acceptWord (s : String) : (acceptWord s).run c = some (false, c) := by
  have hword : (atWord s).run c = some (false, c) := by
    rw [atWord_run]
    generalize c.rest.head?.map (·.kind) = a at hc
    cases hc <;> simp
  rw [Parser.acceptWord, StateT.run_bind, hword]
  rfl

theorem Quiet.binaryAt (level : Nat) : (binaryAt level).run c = some (none, c) := by
  have hfind : ((operators.getD level []).find? fun o => o.1 = ":=") = none := by
    refine List.find?_eq_none.mpr fun o ho heq => ?_
    have hall : ∀ ops ∈ operators, ∀ o ∈ ops, o.1 ≠ ":=" := by decide
    rw [List.getD_eq_getElem?_getD] at ho
    cases hops : operators[level]? with
    | none =>
      rw [hops] at ho
      cases ho
    | some ops =>
      rw [hops] at ho
      exact hall ops (List.mem_of_getElem? hops) o ho (of_decide_eq_true heq)
  generalize hhead : c.rest.head?.map (·.kind) = a at hc
  cases hc with
  | nothing =>
    refine binaryAt_of_ender level (?_ : Ender false _)
    rw [hhead]
    exact .nothing
  | closer =>
    refine binaryAt_of_ender level (?_ : Ender false _)
    rw [hhead]
    exact .closer
  | assigns =>
    rw [Grammar.binaryAt, StateT.run_bind, peek_run, hhead]
    dsimp only [Option.bind_eq_bind, Option.bind_some]
    rw [hfind]
    rfl

theorem Quiet.comparisonAt : comparisonAt.run c = some (none, c) := by
  have hsecond : peekSecond.run c = some ((c.rest.drop 1).head?.map (·.kind), c) := rfl
  have hnone (b : Option LexemeKind) : comparison? (c.rest.head?.map (·.kind)) b = none := by
    generalize c.rest.head?.map (·.kind) = a at hc
    cases hc <;> rfl
  rw [comparisonAt_eq, StateT.run_bind, peek_run, Option.bind_eq_bind, Option.bind_some,
    StateT.run_bind, hsecond, Option.bind_eq_bind, Option.bind_some, hnone]
  rfl

end

section

variable {l : Lexeme} {ls : List Lexeme} {stop : Nat} {parse : Goal → Parser Node}
  (hl : Opening l.kind) (ho : Final o)

theorem atWord_other {s : String} (h : l.kind ≠ .name s) :
    (atWord s).run ⟨l :: ls, stop⟩ = some (false, ⟨l :: ls, stop⟩) := by
  rw [atWord_run, List.head?_cons, Option.map_some, decide_eq_false]
  exact fun heq => h (Option.some.inj heq)

theorem outcome_joined {γ : Type} {g : Goal} {more : Parser (Option γ)}
    {f : Nat → Node → List γ → Parser Node} (hf : ∀ start x, f start x [] = pure x)
    (h : outcome (parse g) c = o) (hmore : ∀ r ∈ o, more.run r.2 = some (none, r.2)) :
    outcome (do
      let start ← startOffset
      let first ← parse g
      let rest ← repeated more
      f start first rest) c = o := by
  refine outcome_start (outcome_bind h fun x c' hx => ?_)
  rw [StateT.run_bind, repeated_none (hmore (x.expr, c') hx), Option.bind_eq_bind,
    Option.bind_some, hf]
  rfl

include ho

theorem primary_passes (h : outcome (parse .atom) c = o) :
    outcome (rule parse .primary) c = o := by
  refine outcome_start (outcome_bind h fun x c' hx => ?_)
  have hq := ho _ hx
  have hget : (get : Parser Cursor).run c' = some (c', c') := rfl
  rw [StateT.run_bind, hget, Option.bind_eq_bind, Option.bind_some, trailers_succ, StateT.run_bind,
    Quiet.accept hq (by decide)]
  dsimp only [Option.bind_eq_bind, Option.bind_some]
  rw [if_neg Bool.false_ne_true, StateT.run_bind, Quiet.atSymbol hq (by decide)]
  dsimp only [Option.bind_eq_bind, Option.bind_some]
  rw [if_neg Bool.false_ne_true, StateT.run_bind, Quiet.accept hq (by decide)]
  rfl

theorem power_passes (h : outcome (parse .awaited) c = o) :
    outcome (rule parse .power) c = o := by
  refine outcome_start (outcome_bind h fun x c' hx => ?_)
  rw [StateT.run_bind, Quiet.accept (ho _ hx) (by decide)]
  rfl

theorem operation_passes {level : Nat} (hlevel : level < operators.length)
    (h : outcome (parse (.operation (level + 1))) c = o) :
    outcome (rule parse (.operation level)) c = o := by
  unfold rule operationRule
  dsimp only
  rw [if_neg (Nat.not_le_of_lt hlevel)]
  refine outcome_joined (fun _ _ => rfl) h
    fun r hr => ?_
  rw [StateT.run_bind, Quiet.binaryAt (ho r hr)]
  rfl

theorem comparison_passes (h : outcome (parse (.operation 0)) c = o) :
    outcome (rule parse .comparison) c = o := by
  refine outcome_joined (fun _ _ => rfl) h fun r hr => ?_
  rw [StateT.run_bind, Quiet.comparisonAt (ho r hr)]
  rfl

theorem boolean_passes {any : Bool} {word : String} {g operand : Goal}
    (hg : rule parse g = booleanRule parse any word operand)
    (h : outcome (parse operand) c = o) : outcome (rule parse g) c = o := by
  rw [hg]
  refine outcome_joined (fun _ _ => rfl) h fun r hr => ?_
  rw [StateT.run_bind, Quiet.acceptWord (ho r hr)]
  rfl

theorem tuple_passes {g item : Goal} (hg : rule parse g = tupleRule parse item)
    (h : outcome (parse item) c = o) : outcome (rule parse g) c = o := by
  rw [hg]
  refine outcome_start (outcome_bind h fun x c' hx => ?_)
  rw [StateT.run_bind, Quiet.atSymbol (ho _ hx) (by decide)]
  rfl

theorem expression_passes (hl : l.kind ≠ .name "lambda")
    (h : outcome (parse .disjunction) ⟨l :: ls, stop⟩ = o) :
    outcome (rule parse .expression) ⟨l :: ls, stop⟩ = o := by
  refine outcome_if (atWord_other hl) (outcome_start (outcome_bind h fun x c' hx => ?_))
  have hword : (expectWord "if").run c' = none := by
    rw [expectWord, StateT.run_bind, Quiet.acceptWord (ho _ hx)]
    rfl
  have hrun (p q : Parser Node) : (p <|> q).run c' = (p.run c' <|> q.run c') := rfl
  rw [hrun, bind_fails hword]
  rfl

omit ho

theorem awaited_passes (hl : l.kind ≠ .name "await")
    (h : outcome (parse .primary) ⟨l :: ls, stop⟩ = o) :
    outcome (rule parse .awaited) ⟨l :: ls, stop⟩ = o :=
  outcome_if (atWord_other hl) h

theorem inversion_passes (hl : l.kind ≠ .name "not")
    (h : outcome (parse .comparison) ⟨l :: ls, stop⟩ = o) :
    outcome (rule parse .inversion) ⟨l :: ls, stop⟩ = o :=
  outcome_if (atWord_other hl) h

include hl

theorem factor_passes (h : outcome (parse .power) ⟨l :: ls, stop⟩ = o) :
    outcome (rule parse .factor) ⟨l :: ls, stop⟩ = o := by
  have hrun : (factorRule parse).run ⟨l :: ls, stop⟩ = (parse .power).run ⟨l :: ls, stop⟩ := by
    rw [factorRule, StateT.run_bind, peek_run, List.head?_cons, Option.map_some]
    generalize l.kind = k at hl
    cases hl <;> rfl
  rw [← h, rule, outcome, hrun, outcome]

omit hl ho in
theorem Always.step {g g' : Goal} (h : Always g c o)
    (hstep : ∀ parse, outcome (parse g) c = o → outcome (rule parse g') c = o) : Always g' c o := by
  obtain ⟨m, hm⟩ := h
  refine ⟨m + 1, fun n hn => ?_⟩
  obtain ⟨n, rfl⟩ : ∃ n', n = n' + 1 := ⟨n - 1, by omega⟩
  exact hstep (parseWithin n) (hm n (by omega))

include ho

omit hl in
theorem Always.disjoined (hlambda : l.kind ≠ .name "lambda")
    (h : Always .inversion ⟨l :: ls, stop⟩ o) : Always .expression ⟨l :: ls, stop⟩ o := by
  have hconjunction : Always .conjunction ⟨l :: ls, stop⟩ o :=
    h.step fun _ => boolean_passes ho rfl
  have hdisjunction : Always .disjunction ⟨l :: ls, stop⟩ o :=
    hconjunction.step fun _ => boolean_passes ho rfl
  exact hdisjunction.step fun _ => expression_passes ho hlambda

theorem Always.operated (hlambda : l.kind ≠ .name "lambda") (hnot : l.kind ≠ .name "not")
    (h : Always .awaited ⟨l :: ls, stop⟩ o) : Always .expression ⟨l :: ls, stop⟩ o := by
  have hpower : Always .power ⟨l :: ls, stop⟩ o := h.step fun _ => power_passes ho
  have hfactor : Always .factor ⟨l :: ls, stop⟩ o := hpower.step fun _ => factor_passes hl
  have hlast : Always (.operation operators.length) ⟨l :: ls, stop⟩ o := hfactor.step fun _ h => h
  have hoperation (d : Nat) (hd : d ≤ operators.length) :
      Always (.operation (operators.length - d)) ⟨l :: ls, stop⟩ o := by
    induction d with
    | zero => exact hlast
    | succ d ih =>
      refine (ih (by omega)).step fun _ h => operation_passes ho (by omega) ?_
      rwa [show operators.length - (d + 1) + 1 = operators.length - d by omega]
  have hcomparison : Always .comparison ⟨l :: ls, stop⟩ o := by
    refine (hoperation operators.length (Nat.le_refl _)).step fun _ h => comparison_passes ho ?_
    rwa [Nat.sub_self] at h
  exact (hcomparison.step fun _ => inversion_passes hnot).disjoined ho hlambda

theorem Always.expression (hlambda : l.kind ≠ .name "lambda") (hnot : l.kind ≠ .name "not")
    (hawait : l.kind ≠ .name "await") (h : Always .atom ⟨l :: ls, stop⟩ o) :
    Always .expression ⟨l :: ls, stop⟩ o := by
  have hprimary : Always .primary ⟨l :: ls, stop⟩ o := h.step fun _ => primary_passes ho
  have hawaited : Always .awaited ⟨l :: ls, stop⟩ o :=
    hprimary.step fun _ => awaited_passes hawait
  exact hawaited.operated hl ho hlambda hnot

end

theorem spanned_next {p : Parser Expr} (l : Lexeme) (ls : List Lexeme) (stop : Nat) :
    (spanned (do
      let _ ← next
      p)).run ⟨l :: ls, stop⟩ =
      (p.run ⟨ls, l.stop⟩).map fun r => (Node.of r.1 l.start r.2.stop, r.2) := by
  have hstart : startOffset.run ⟨l :: ls, stop⟩ = some (l.start, ⟨l :: ls, stop⟩) := rfl
  have hnext : (do
      let _ ← next
      p).run ⟨l :: ls, stop⟩ = p.run ⟨ls, l.stop⟩ := rfl
  rw [spanned, StateT.run_bind, hstart, Option.bind_eq_bind, Option.bind_some, StateT.run_bind,
    hnext]
  cases p.run ⟨ls, l.stop⟩ <;> rfl

theorem atom_of_word {l : Lexeme} {ls : List Lexeme} {stop : Nat} {s : String} (hl : l.kind = .name s) :
    ∃ o, Always .atom ⟨l :: ls, stop⟩ o ∧ ∀ r ∈ o, r.2 = ⟨ls, l.stop⟩ := by
  refine ⟨outcome (atomRule fun _ => failure) ⟨l :: ls, stop⟩, ⟨1, fun n hn => ?_⟩, fun r hr => ?_⟩
  · obtain ⟨n, rfl⟩ : ∃ n', n = n' + 1 := ⟨n - 1, by omega⟩
    rw [parseWithin, rule, outcome, outcome, atomRule, atomRule, StateT.run_bind, StateT.run_bind,
      peek_run, List.head?_cons, Option.map_some, hl]
    rfl
  · obtain ⟨⟨x, c⟩, hrun, rfl⟩ := Option.map_eq_some_iff.mp hr
    rw [atomRule, StateT.run_bind, peek_run, List.head?_cons, Option.map_some, hl] at hrun
    dsimp only [Option.bind_eq_bind, Option.bind_some] at hrun
    rw [spanned_next] at hrun
    obtain ⟨⟨e, c'⟩, hword, heq⟩ := Option.map_eq_some_iff.mp hrun
    cases heq
    split at hword
    · cases hword
      rfl
    · cases hword
      rfl
    · cases hword
      rfl
    · split at hword
      · cases hword
      · cases hword
        rfl

/-- In front of the mark of an assignment a word is read alone, or nothing is read. -/
theorem expression_of_word {l l' : Lexeme} (ls : List Lexeme) (stop : Nat) {s : String}
    (hl : l.kind = .name s) (hl' : l'.kind = .symbol ":=") :
    ∃ o, Always .expression ⟨l :: l' :: ls, stop⟩ o ∧ ∀ r ∈ o, r.2 = ⟨l' :: ls, l.stop⟩ := by
  have hopening : Opening l.kind := hl ▸ .word s
  have hnone : Final none := nofun
  have hother {t : String} (hs : s ≠ t) : l.kind ≠ .name t := by
    rw [hl]
    exact fun heq => hs (LexemeKind.name.inj heq)
  have hfails (f : Expr → Expr) (n : Nat) (g : Goal) :
      (spanned (do
        let _ ← next
        return f (← parseExpr (parseWithin n) g))).run ⟨l :: l' :: ls, stop⟩ = none := by
    rw [spanned_next, parseExpr, bind_fails (bind_fails (start_fails (.inr rfl) hl' n g))]
    rfl
  have hword (t : String) : (atWord t).run ⟨l :: l' :: ls, stop⟩ =
      some (decide (s = t), ⟨l :: l' :: ls, stop⟩) := by
    rw [atWord_run, List.head?_cons, Option.map_some, hl]
    simp
  by_cases hlambda : s = "lambda"
  · refine ⟨none, ⟨1, fun n hn => ?_⟩, nofun⟩
    obtain ⟨n, rfl⟩ : ∃ n', n = n' + 1 := ⟨n - 1, by omega⟩
    have hparameter (parse : Goal → Parser Node) (sig : Signature) :
        (parameter parse sig).run ⟨l' :: ls, l.stop⟩ = none := by
      simp [parameter, accept, atSymbol, peek, identifier, next, hl']
    have hsignature (parse : Goal → Parser Node) (fuel : Nat) :
        (signatureFrom parse (fuel + 1) {}).run ⟨l' :: ls, l.stop⟩ = none := by
      have hcolon : (atSymbol ":").run ⟨l' :: ls, l.stop⟩ = some (false, ⟨l' :: ls, l.stop⟩) := by
        rw [atSymbol_run, List.head?_cons, Option.map_some, hl']
        simp
      rw [signatureFrom_succ, StateT.run_bind, hcolon]
      dsimp only [Option.bind_eq_bind, Option.bind_some]
      rw [if_neg Bool.false_ne_true]
      exact bind_fails (hparameter parse {})
    have hget : (get : Parser Cursor).run ⟨l' :: ls, l.stop⟩ = some (_, _) := rfl
    rw [parseWithin, rule, outcome, expressionRule, StateT.run_bind, hword, decide_eq_true hlambda]
    dsimp only [Option.bind_eq_bind, Option.bind_some]
    rw [if_pos rfl, spanned_next, lambdaRule, StateT.run_bind, hget, Option.bind_eq_bind,
      Option.bind_some, bind_fails (hsignature _ _)]
    rfl
  by_cases hnot : s = "not"
  · have hinversion : Always .inversion ⟨l :: l' :: ls, stop⟩ none := by
      refine ⟨1, fun n hn => ?_⟩
      obtain ⟨n, rfl⟩ : ∃ n', n = n' + 1 := ⟨n - 1, by omega⟩
      rw [parseWithin, rule, outcome, inversionRule, StateT.run_bind, hword, decide_eq_true hnot]
      dsimp only [Option.bind_eq_bind, Option.bind_some]
      rw [if_pos rfl, hfails]
      rfl
    exact ⟨none, hinversion.disjoined hnone (hother hlambda), nofun⟩
  by_cases hawait : s = "await"
  · have hawaited : Always .awaited ⟨l :: l' :: ls, stop⟩ none := by
      refine ⟨1, fun n hn => ?_⟩
      obtain ⟨n, rfl⟩ : ∃ n', n = n' + 1 := ⟨n - 1, by omega⟩
      rw [parseWithin, rule, outcome, awaitedRule, StateT.run_bind, hword, decide_eq_true hawait]
      dsimp only [Option.bind_eq_bind, Option.bind_some]
      rw [if_pos rfl, hfails]
      rfl
    exact ⟨none, hawaited.operated hopening hnone (hother hlambda) (hother hnot), nofun⟩
  obtain ⟨o, hatom, hplace⟩ : ∃ o, Always .atom ⟨l :: l' :: ls, stop⟩ o ∧
      ∀ r ∈ o, r.2 = ⟨l' :: ls, l.stop⟩ := atom_of_word hl
  have hfinal : Final o := by
    intro r hr
    rw [hplace r hr, List.head?_cons, Option.map_some, hl']
    exact .assigns
  exact ⟨o, hatom.expression hopening hfinal (hother hlambda) (hother hnot) (hother hawait), hplace⟩

theorem expression_of_yield {l : Lexeme} (ls : List Lexeme) (stop : Nat) (hl : l.kind = .name "yield") :
    Always .expression ⟨l :: ls, stop⟩ none := by
  have hatom : Always .atom ⟨l :: ls, stop⟩ none := by
    refine ⟨1, fun n hn => ?_⟩
    obtain ⟨n, rfl⟩ : ∃ n', n = n' + 1 := ⟨n - 1, by omega⟩
    rw [parseWithin, rule, outcome, atomRule, StateT.run_bind, peek_run, List.head?_cons,
      Option.map_some, hl]
    dsimp only [Option.bind_eq_bind, Option.bind_some]
    rw [spanned_next]
    rfl
  have hother {t : String} (ht : "yield" ≠ t) : l.kind ≠ .name t := by
    rw [hl]
    exact fun heq => ht (LexemeKind.name.inj heq)
  exact hatom.expression (hl ▸ .word "yield") (by rintro _ ⟨⟩) (hother (by decide)) (hother (by decide))
    (hother (by decide))

theorem atomRule_group {l : Lexeme} {ls : List Lexeme} {stop : Nat} (hl : l.kind = .symbol "(")
    (parse : Goal → Parser Node) : (atomRule parse).run ⟨l :: ls, stop⟩ =
      (do
        let (node, grouped) ← parenthesized parse
        return if grouped then node else Node.of node.expr l.start node.span.stop).run
          ⟨ls, l.stop⟩ := by
  rw [atomRule, StateT.run_bind, peek_run, List.head?_cons, Option.map_some, hl]
  rfl

/-- What stands between parentheses that nothing follows is what every goal reads there. -/
theorem expressions_of_group {l : Lexeme} {ls : List Lexeme} {stop : Nat} (hl : l.kind = .symbol "(")
    (ho : Final o)
    (h : ∃ m, ∀ n, m ≤ n → ((parenthesized (parseWithin n)).run ⟨ls, l.stop⟩).map
      (fun r => (r.1.1.expr, r.2)) = o) : Always .expressions ⟨l :: ls, stop⟩ o := by
  have hatom : Always .atom ⟨l :: ls, stop⟩ o := by
    obtain ⟨m, hm⟩ := h
    refine ⟨m + 1, fun n hn => ?_⟩
    obtain ⟨n, rfl⟩ : ∃ n', n = n' + 1 := ⟨n - 1, by omega⟩
    rw [← hm n (by omega), parseWithin, rule, outcome, atomRule_group hl,
      StateT.run_bind]
    cases (parenthesized (parseWithin n)).run ⟨ls, l.stop⟩ with
    | none => rfl
    | some r =>
      obtain ⟨⟨x, grouped⟩, c⟩ := r
      cases grouped <;> rfl
  have hother {t : String} : l.kind ≠ .name t := by
    rw [hl]
    rintro ⟨⟩
  have hexpression := hatom.expression (hl ▸ .group) ho hother hother hother
  exact hexpression.step fun _ => tuple_passes ho rfl

end

end Stencil.Grammar
