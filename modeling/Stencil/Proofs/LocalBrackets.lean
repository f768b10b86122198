import Stencil.Proofs.LocalReading

/-!
# Reading parameters and what stands in brackets

An anonymous function may take the colon behind a window for its own, but then nothing is left
for its body. Comprehensions, arguments and subscripts stand in brackets, whose end is not the end
of a window.
-/

namespace Stencil.Grammar

open Stencil.Expr (Lexeme LexemeKind)
open Stencil.Grammar.Parser

/-- No expression begins with the end of a line or in front of the value of an assignment. -/
theorem start_fails {k : LexemeKind} (hk : k = .newline ∨ k = .symbol ":=") {l : Lexeme}
    {ls : List Lexeme} {stop : Nat} (hl : l.kind = k) (n : Nat) (g : Goal) :
    (parseWithin n g).run ⟨l :: ls, stop⟩ = none := by
  induction n generalizing g with
  | zero => rfl
  | succ n ih =>
    rcases hk with rfl | rfl
    all_goals
      have hpeek : peek.run ⟨l :: ls, stop⟩ = some (some l.kind, ⟨l :: ls, stop⟩) := by
        simp [peek]
      rw [hl] at hpeek
      have hsymbol : (atSymbol "*").run ⟨l :: ls, stop⟩ = some (false, ⟨l :: ls, stop⟩) := by
        simp [atSymbol, hpeek]
      have hword (s : String) : (atWord s).run ⟨l :: ls, stop⟩ = some (false, ⟨l :: ls, stop⟩) := by
        simp [atWord, hpeek]
      have hstart : startOffset.run ⟨l :: ls, stop⟩ = some (l.start, ⟨l :: ls, stop⟩) := rfl
      have hassign : atAssignment.run ⟨l :: ls, stop⟩ = some (false, ⟨l :: ls, stop⟩) := by
        simp [atAssignment, hpeek, peekSecond]
      cases g with
      | atom =>
        rw [parseWithin, rule, atomRule, StateT.run_bind, hpeek]
        rfl
      | operation level =>
        rw [parseWithin, rule, operationRule]
        split <;> simp [hstart, ih]
      | _ =>
        simp [parseWithin, rule, expressionRule, tupleRule, namedRule, starRule, booleanRule,
          inversionRule, comparisonRule, factorRule, powerRule, awaitedRule, primaryRule, targetRule,
          hpeek, hsymbol, hword, hstart, hassign, ih]

/-- One parameter, with its mark and its default. -/
def parameter (parse : Goal → Parser Node) (sig : Signature) : Parser Signature := do
  if ← accept "**" then
    if sig.pendingStar then failure
    return { sig with restKeywords := some (← identifier) }
  else if ← accept "*" then
    if sig.starred then failure
    if ← atSymbol "," then return { sig with starred := true, pendingStar := true }
    else return { sig with starred := true, rest := some (← identifier) }
  else if ← accept "/" then
    if sig.starred || !sig.positionalOnly.isEmpty || sig.positional.isEmpty then failure
    return { sig with positionalOnly := sig.positional, positional := [] }
  else
    let name ← identifier
    let value ← defaultValue parse
    if sig.starred then
      return { sig with
        keywordOnly := sig.keywordOnly ++ [(name, value)], pendingStar := false }
    else
      match value with
      | some v =>
        return { sig with
          positional := sig.positional ++ [name], defaults := sig.defaults ++ [v] }
      | none =>
        if sig.defaults.isEmpty then
          return { sig with positional := sig.positional ++ [name] }
        else failure

theorem signatureFrom_succ (parse : Goal → Parser Node) (fuel : Nat) (sig : Signature) :
    signatureFrom parse (fuel + 1) sig = (do
      if ← atSymbol ":" then
        if sig.pendingStar then failure else return sig
      else if sig.restKeywords.isSome then failure
      else
        let sig ← parameter parse sig
        if ← accept "," then signatureFrom parse fuel sig
        else if ← atSymbol ":" then signatureFrom parse fuel sig
        else failure) := rfl

section

variable {targets : Bool} {ks : List LexemeKind} {V W : Window} {i r m n : Nat}
  {pending : List Char} (hT : Twins targets ks V W) (hB : Below targets ks V W i r m n)
  (hfree : pending = [] → targets = false)

include hT hB hfree

theorem defaultValue_alike {x : Nat} (hix : i < x) (hx : Open ks x pending) :
    Alike V W x (defaultValue (parseWithin m)) (defaultValue (parseWithin n))
      (Kept ks x pending Eq) := by
  unfold defaultValue
  refine (hT.accept hx.le (.symbol (by decide))).bind ?_
  rintro _ _ _ (⟨hk⟩ | ⟨hk⟩)
  · have hnext := hx.step hk (plain_symbol (by decide) pending)
    refine (hB.expr (by omega) (by omega) hnext (allowed_of_free hfree .expression)).bind ?_
    rintro e _ j ⟨rfl, hlt, hj⟩
    exact .pure ⟨rfl, by omega, hj⟩
  · exact .pure ⟨rfl, Nat.le_refl x, hx⟩

theorem parameter_alike {x : Nat} (hix : i < x) (hx : Open ks x pending) (sig : Signature) :
    Alike V W x (parameter (parseWithin m) sig) (parameter (parseWithin n) sig)
      (Moved ks x pending Eq) := by
  have hname {y : Nat} (hxy : x ≤ y) (hy : Open ks y pending) (f : String → Signature) :
      Alike V W y (do return f (← identifier)) (do return f (← identifier))
        (Moved ks x pending Eq) := by
    refine (hT.identifier y).bind ?_
    rintro s _ _ ⟨rfl, ⟨_, hk⟩, rfl⟩
    exact .pure ⟨rfl, by omega, hy.step hk rfl⟩
  unfold parameter
  refine (hT.accept hx.le (.symbol (by decide))).bind ?_
  rintro _ _ _ (⟨hk⟩ | ⟨hk⟩)
  · have hnext := hx.step hk (plain_symbol (by decide) pending)
    exact .check _ (hname (by omega) hnext _)
  refine (hT.accept hx.le (.symbol (by decide))).bind ?_
  rintro _ _ _ (⟨hk⟩ | ⟨hk⟩)
  · have hnext := hx.step hk (plain_symbol (by decide) pending)
    refine .check _ ?_
    refine (hT.atSymbol hnext.le (.symbol (by decide))).bind ?_
    rintro _ _ _ (⟨hk'⟩ | ⟨hk'⟩)
    · exact .pure ⟨rfl, by omega, hnext⟩
    · exact hname (by omega) hnext _
  refine (hT.accept hx.le (.symbol (by decide))).bind ?_
  rintro _ _ _ (⟨hk⟩ | ⟨hk⟩)
  · have hnext := hx.step hk (plain_symbol (by decide) pending)
    exact .check _ (.pure ⟨rfl, by omega, hnext⟩)
  refine (hT.identifier x).bind ?_
  rintro s _ _ ⟨rfl, ⟨_, hk⟩, rfl⟩
  refine (defaultValue_alike hT hB hfree (by omega) (hx.step hk rfl)).bind ?_
  rintro value _ j ⟨rfl, hxj, hj⟩
  split
  · exact .pure ⟨rfl, by omega, hj⟩
  · split
    · exact .pure ⟨rfl, by omega, hj⟩
    · split
      · exact .pure ⟨rfl, by omega, hj⟩
      · exact .failure

end

/-- If `p` ends at all, then in front of a colon and the end of a line. -/
def Stuck {α : Type} (p : Parser α) (c : Cursor) : Prop :=
  ∀ a c', p.run c = some (a, c') →
    ∃ l m ls, c'.rest = l :: m :: ls ∧ l.kind = .symbol ":" ∧ m.kind = .newline

theorem Stuck.of_fails {α : Type} {p : Parser α} {c : Cursor} (h : p.run c = none) : Stuck p c := by
  intro a c' hrun
  rw [h] at hrun
  cases hrun

theorem Stuck.body_fails {α : Type} {p : Parser α} {c : Cursor} (h : Stuck p c) (m : Nat)
    (f : α → Expr → Parser Expr) :
    (do
      let a ← p
      expect ":"
      let body ← parseExpr (parseWithin m) .expression
      f a body).run c = none := by
  rw [StateT.run_bind]
  cases hrun : p.run c with
  | none => rfl
  | some result =>
    obtain ⟨a, c'⟩ := result
    obtain ⟨l, newline, ls, hrest, hcolon, hnewline⟩ := h a c' hrun
    obtain ⟨rest, stop⟩ := c'
    cases hrest
    have hexpect : (expect ":").run ⟨l :: newline :: ls, stop⟩ =
        some ((), ⟨newline :: ls, l.stop⟩) := by
      simp [Parser.expect, Parser.accept, Parser.atSymbol, Parser.peek, Parser.next, hcolon]
    rw [Option.bind_eq_bind, Option.bind_some, StateT.run_bind, hexpect, Option.bind_eq_bind,
      Option.bind_some]
    exact bind_fails (bind_fails (start_fails (.inl rfl) hnewline m .expression))

/-- Where no parameter can be read, a list of parameters is empty or cannot be read. -/
theorem signatureFrom_stuck {targets : Bool} {parse : Goal → Parser Node} {c : Cursor}
    {sig : Signature} (hc : Ends targets c.rest) (hfails : (parameter parse sig).run c = none)
    (fuel : Nat) : Stuck (signatureFrom parse fuel sig) c := by
  cases fuel with
  | zero => exact .of_fails rfl
  | succ fuel =>
    have hcolon : (atSymbol ":").run c =
        some (decide (c.rest.head?.map (·.kind) = some (.symbol ":")), c) := by
      simp [Parser.atSymbol, Parser.peek]
    intro a c' hrun
    rw [signatureFrom_succ, StateT.run_bind, hcolon, Option.bind_eq_bind, Option.bind_some] at hrun
    by_cases hhead : c.rest.head?.map (·.kind) = some (.symbol ":")
    · obtain ⟨rest, stop⟩ := c
      cases hc with
      | nothing => cases hhead
      | colon h h' =>
        rw [decide_eq_true hhead] at hrun
        cases hstar : sig.pendingStar <;> rw [hstar] at hrun <;> cases hrun
        exact ⟨_, _, _, rfl, h, h'⟩
      | closer h | word _ h =>
        rw [List.head?_cons, Option.map_some, h] at hhead
        simp at hhead
    · rw [decide_eq_false hhead] at hrun
      cases hkeywords : sig.restKeywords.isSome <;> rw [hkeywords] at hrun
      · cases (bind_fails hfails).symm.trans hrun
      · cases hrun

theorem Stuck.if_colon {p : Parser Signature} {c : Cursor} (h : Stuck p c) :
    Stuck (do if ← atSymbol ":" then p else failure) c := by
  have hcolon : (atSymbol ":").run c =
      some (decide (c.rest.head?.map (·.kind) = some (.symbol ":")), c) := by
    simp [Parser.atSymbol, Parser.peek]
  intro a c' hrun
  rw [StateT.run_bind, hcolon, Option.bind_eq_bind, Option.bind_some] at hrun
  split at hrun
  · exact h a c' hrun
  · cases hrun

def AlikeOrStuck {α β : Type} (V W : Window) (i : Nat) (p : Parser α) (q : Parser β)
    (T : α → β → Nat → Prop) : Prop :=
  Stuck p (V.cursor i) ∧ Stuck q (W.cursor i) ∨ Alike V W i p q T

theorem Alike.bind_stuck {α β γ δ : Type} {V W : Window} {i : Nat} {p : Parser α} {q : Parser β}
    {f : α → Parser γ} {g : β → Parser δ} {T : α → β → Nat → Prop} {U : γ → δ → Nat → Prop}
    (h : Alike V W i p q T) (hnext : ∀ a b j, T a b j → AlikeOrStuck V W j (f a) (g b) U) :
    AlikeOrStuck V W i (p >>= f) (q >>= g) U := by
  rcases h with ⟨hp, hq⟩ | ⟨a, b, j, hp, hq, h⟩
  · exact .inr (.inl ⟨bind_fails hp, bind_fails hq⟩)
  · have hl : (p >>= f).run (V.cursor i) = (f a).run (V.cursor j) := by
      rw [StateT.run_bind, hp]
      rfl
    have hr : (q >>= g).run (W.cursor i) = (g b).run (W.cursor j) := by
      rw [StateT.run_bind, hq]
      rfl
    rw [AlikeOrStuck, Alike, Stuck, Stuck, hl, hr]
    exact hnext a b j h

section

variable {targets : Bool} {ks : List LexemeKind} {V W : Window} {i r m n : Nat}
  {pending : List Char} (hT : Twins targets ks V W) (hB : Below targets ks V W i r m n)
  (hfree : pending = [] → targets = false)

include hT hB hfree

theorem signatureFrom_alike {x a b : Nat} (hix : i < x) (hx : Open ks x pending)
    (ha : ks.length - x < a) (hb : ks.length - x < b) (sig : Signature) :
    AlikeOrStuck V W x (signatureFrom (parseWithin m) a sig) (signatureFrom (parseWithin n) b sig)
      fun s s' j => s = s' ∧ x ≤ j ∧ Open ks j pending ∧ ks[j]? = some (.symbol ":") := by
  have hstuck {y : Nat} (hiy : i < y) (hy : Open ks y pending) (hle : ks.length ≤ y) (a b : Nat)
      (sig : Signature) : Stuck (signatureFrom (parseWithin m) a sig) (V.cursor y) ∧
        Stuck (signatureFrom (parseWithin n) b sig) (W.cursor y) := by
    have hrest {V : Window} (hV : V.kinds = ks) : (V.cursor y).rest = V.behind := by
      rw [Window.cursor, List.drop_of_length_le (Window.length_kinds hV ▸ hle), List.nil_append]
    rcases parameter_alike hT hB hfree hiy hy sig with ⟨hp, hq⟩ | ⟨_, _, z, -, -, -, hyz, hz⟩
    · exact ⟨signatureFrom_stuck (hrest hT.left ▸ hT.leftEnds) hp a,
        signatureFrom_stuck (hrest hT.right ▸ hT.rightEnds) hq b⟩
    · exact absurd (Nat.lt_of_lt_of_le hyz hz.le) (Nat.not_lt_of_le hle)
  have hmono {x y : Nat} {p q : Parser Signature} (hxy : x ≤ y)
      (h : AlikeOrStuck V W y p q fun s s' j =>
        s = s' ∧ y ≤ j ∧ Open ks j pending ∧ ks[j]? = some (.symbol ":")) :
      AlikeOrStuck V W y p q fun s s' j =>
        s = s' ∧ x ≤ j ∧ Open ks j pending ∧ ks[j]? = some (.symbol ":") :=
    h.imp_right fun h => h.mono fun _ _ _ h => ⟨h.1, Nat.le_trans hxy h.2.1, h.2.2⟩
  induction a generalizing x b sig with
  | zero => exact absurd ha (Nat.not_lt_zero _)
  | succ a ih =>
    rcases Nat.lt_or_ge x ks.length with hlt | hle
    · obtain ⟨b, rfl⟩ : ∃ b', b = b' + 1 := ⟨b - 1, by omega⟩
      rw [signatureFrom_succ, signatureFrom_succ]
      refine (hT.atSymbol hx.le (.inl hlt)).bind_stuck ?_
      rintro _ _ _ (⟨hk⟩ | ⟨hk⟩)
      · cases sig.pendingStar with
        | true => exact .inr .failure
        | false => exact .inr (.pure ⟨rfl, Nat.le_refl x, hx, hk⟩)
      · cases sig.restKeywords.isSome with
        | true => exact .inr .failure
        | false =>
          refine (parameter_alike hT hB hfree hix hx sig).bind_stuck ?_
          rintro sig' _ j ⟨rfl, hxj, hj⟩
          refine (hT.accept hj.le (.symbol (by decide))).bind_stuck ?_
          rintro _ _ _ (⟨hk'⟩ | ⟨hk'⟩)
          · have hnext := hj.step hk' (plain_symbol (by decide) pending)
            exact hmono (by omega) (ih (by omega) hnext (by omega) (by omega) sig')
          · rcases Nat.lt_or_ge j ks.length with hlt' | hle
            · refine (hT.atSymbol hj.le (.inl hlt')).bind_stuck ?_
              rintro _ _ _ (⟨hk''⟩ | ⟨hk''⟩)
              · exact hmono (Nat.le_of_lt hxj) (ih (by omega) hj (by omega) (by omega) sig')
              · exact .inr .failure
            · obtain ⟨hp, hq⟩ := hstuck (by omega) hj hle a b sig'
              exact .inl ⟨hp.if_colon, hq.if_colon⟩
    · exact .inl (hstuck hix hx hle _ _ sig)

theorem lambdaRule_alike {x : Nat} (hix : i < x) (hx : Open ks x pending) :
    Alike V W x (lambdaRule (parseWithin m)) (lambdaRule (parseWithin n))
      (Moved ks x pending Eq) := by
  have hlength {V : Window} (hV : V.kinds = ks) : ks.length - x < (V.cursor x).rest.length + 1 := by
    simp only [Window.cursor, List.length_append, List.length_drop, Window.length_kinds hV]
    omega
  unfold lambdaRule
  refine Alike.get.bind ?_
  rintro _ _ _ ⟨rfl, rfl, rfl⟩
  rcases signatureFrom_alike hT hB hfree hix hx (hlength hT.left) (hlength hT.right) {} with
    ⟨hp, hq⟩ | halike
  · exact .inl ⟨hp.body_fails m _, hq.body_fails n _⟩
  · refine halike.bind ?_
    rintro sig _ j ⟨rfl, hxj, hj, hk⟩
    refine (hT.expect hj.le (.inl (List.getElem?_eq_some_iff.mp hk).1)).bind ?_
    rintro _ _ _ ⟨-, rfl⟩
    have hnext := hj.step hk (plain_symbol (by decide) pending)
    refine (hB.expr (by omega) (by omega) hnext (allowed_of_free hfree .expression)).bind ?_
    rintro body _ k ⟨rfl, hlt, hk⟩
    exact .pure ⟨rfl, by omega, hk⟩

theorem expressionRule_alike (hopen : Open ks i pending) (hr : 16 < r) :
    Alike V W i (expressionRule (parseWithin m)) (expressionRule (parseWithin n))
      (Read V W ks i pending) := by
  unfold expressionRule
  refine (hT.atWord hopen.le (.word (by decide))).bind ?_
  rintro _ _ _ (⟨hk⟩ | ⟨hk⟩)
  · refine .spanned ?_
    refine (hT.next hk).bind ?_
    rintro _ _ _ ⟨-, -, rfl⟩
    refine (lambdaRule_alike hT hB hfree (Nat.lt_succ_self i) (hopen.step hk rfl)).mono ?_
    rintro e e' j ⟨he, hij, hj⟩
    exact ⟨he, by omega, hj⟩
  · refine Alike.startOffset.bind ?_
    rintro _ _ _ ⟨rfl, rfl, rfl⟩
    refine (hB.goals i .disjunction pending (Nat.le_refl i) (fun _ => hr) hopen
      (allowed_of_free hfree _)).bind ?_
    rintro yes yes' j hyes
    have hij := hyes.lt
    refine .orElse ?_ (.pure hyes)
    refine (hT.expectWord hyes.opened.le (.word (by decide))).bind ?_
    rintro _ _ _ ⟨hk, rfl⟩
    refine (hB.expr (by omega) (by omega) (hyes.opened.step hk rfl)
      (allowed_of_free hfree .disjunction)).bind ?_
    rintro test _ k ⟨rfl, hjk, hopen'⟩
    refine (hT.expectWord hopen'.le (.word (by decide))).bind ?_
    rintro _ _ _ ⟨hk', rfl⟩
    refine (hB.expr (by omega) (by omega) (hopen'.step hk' rfl)
      (allowed_of_free hfree .expression)).bind ?_
    rintro no _ l ⟨rfl, hkl, hopen''⟩
    exact .node (by rw [hyes.expr]) (by omega) hopen''

end

/-- One `for` of a comprehension with its conditions, if it is there. -/
def clause (parse : Goal → Parser Node) (asynchronous : Bool) : Parser (Option (Clause Expr)) := do
  if ← acceptWord "for" then
    let target ← parseExpr parse .targets
    expectWord "in"
    let source ← parseExpr parse .disjunction
    let conditions ← repeated do
      if ← acceptWord "if" then return some (← parseExpr parse .disjunction) else return none
    return some ⟨target, source, conditions, asynchronous⟩
  else return none

theorem clauses_eq (parse : Goal → Parser Node) : clauses parse = repeated (do
    let second ← peekSecond
    let asynchronous : Bool := (← atWord "async") && second == some (.name "for")
    if asynchronous then
      let _ ← next
      clause parse asynchronous
    else clause parse asynchronous) := rfl

section

variable {targets : Bool} {ks : List LexemeKind} {V W : Window} {i r m n x : Nat} {c : Char}
  {pending : List Char} (hT : Twins targets ks V W) (hB : Below targets ks V W i r m n)
  (hix : i < x) (hx : Open ks x (c :: pending))

omit V W in
theorem Open.tells {k : LexemeKind} (hx : Open ks x (c :: pending)) : Tells targets ks x k :=
  .inl (hx.lt (List.cons_ne_nil c pending))

omit ks V W x in
theorem allowed_inside (g : Goal) : c :: pending = [] → Allowed targets g := nofun

include hT hx

theorem atClause_alike : Alike V W x atClause atClause fun a b j => a = b ∧ x = j := by
  unfold atClause
  refine (hT.atWord hx.le hx.tells).bind ?_
  rintro _ _ _ (⟨-⟩ | ⟨-⟩)
  all_goals
    refine (hT.atWord hx.le hx.tells).bind ?_
    rintro _ _ _ (⟨-⟩ | ⟨-⟩)
    · exact .pure ⟨rfl, rfl⟩
    · exact .pure ⟨rfl, rfl⟩

include hB hix

theorem clause_alike (asynchronous : Bool) :
    Alike V W x (clause (parseWithin m) asynchronous) (clause (parseWithin n) asynchronous)
      fun a b j => Sign ks x (c :: pending) a b j ∧ (a = none → ks[x]? ≠ some (.name "for")) := by
  unfold clause
  refine (hT.acceptWord hx.le hx.tells).bind ?_
  rintro _ _ _ (⟨hk⟩ | ⟨hk⟩)
  · have hnext := hx.step hk rfl
    refine (hB.expr (by omega) (by omega) hnext (allowed_inside .targets)).bind ?_
    rintro target _ j ⟨rfl, hlt, hj⟩
    refine (hT.expectWord hj.le hj.tells).bind ?_
    rintro _ _ _ ⟨hk', rfl⟩
    refine (hB.expr (by omega) (by omega) (hj.step hk' rfl) (allowed_inside .disjunction)).bind ?_
    rintro source _ k ⟨rfl, hlt', hk''⟩
    refine (Alike.repeated Eq (fun y => Open ks y (c :: pending)) Eq hT (fun y hy => hy.le) ?_
      hk'').bind ?_
    · intro y hky hy
      refine (hT.acceptWord hy.le hy.tells).bind ?_
      rintro _ _ _ (⟨hif⟩ | ⟨hif⟩)
      · refine (hB.expr (by omega) (by omega) (hy.step hif rfl)
          (allowed_inside .disjunction)).bind ?_
        rintro test _ z ⟨rfl, hyz, hz⟩
        exact .pure (.more rfl (by omega) hz)
      · exact .pure (.last rfl)
    · rintro as bs z ⟨hall, y, hky, hy, rfl, -⟩
      rw [List.forall₂_eq_eq_eq] at hall
      subst hall
      exact .pure ⟨.some _ (by omega) hy, nofun⟩
  · exact .pure ⟨.none, fun _ => hk⟩

theorem clauses_alike :
    Alike V W x (clauses (parseWithin m)) (clauses (parseWithin n))
      (Kept ks x (c :: pending) Eq) := by
  rw [clauses_eq, clauses_eq]
  refine (Alike.repeated Eq (fun y => Open ks y (c :: pending)) Eq hT (fun y hy => hy.le) ?_
    hx).mono ?_
  · intro y hxy hy
    have hplain : Alike V W y (clause (parseWithin m) false) (clause (parseWithin n) false)
        (Round Eq (fun y => Open ks y (c :: pending)) Eq y) := by
      refine (clause_alike hT hB (by omega) hy false).mono ?_
      rintro _ _ _ ⟨_ | ⟨a, hlt, hj⟩, -⟩
      · exact .last rfl
      · exact .more rfl hlt hj
    refine (hT.peekSecond y).bind ?_
    rintro second second' _ ⟨hsecond, rfl⟩
    refine (hT.atWord hy.le hy.tells).bind ?_
    rintro _ _ _ (⟨hk⟩ | ⟨hk⟩)
    · have hnext := hy.step hk rfl
      specialize hsecond (hy.lt (List.cons_ne_nil c pending))
      cases hsecond with
      | behind hle => exact absurd (hnext.lt (List.cons_ne_nil c pending)) (Nat.not_lt_of_le hle)
      | @inside k hk' =>
        by_cases hfor : k = .name "for"
        · subst hfor
          refine (hT.next hk).bind ?_
          rintro _ _ _ ⟨-, -, rfl⟩
          refine (clause_alike hT hB (by omega) hnext true).mono ?_
          rintro _ _ _ ⟨_ | ⟨a, hlt, hj⟩, hnone⟩
          · exact absurd hk' (hnone rfl)
          · exact .more rfl (by omega) hj
        · have hne : (some k == some (.name "for")) = false := by simpa using hfor
          simp only [hne, Bool.and_false]
          exact hplain
    · exact hplain
  · rintro as bs j ⟨hall, y, hxy, hy, rfl, -⟩
    exact ⟨List.forall₂_eq_eq_eq ▸ hall, hxy, hy⟩

end

/-- Arguments that differ in where they stand only. -/
inductive Argument.Alike : Argument → Argument → Prop
  | positional (e : Expr) (s t : Span) : Argument.Alike (.positional e s) (.positional e t)
  | keyword (name : Option String) (e : Expr) :
      Argument.Alike (.keyword name e) (.keyword name e)
  | generator (e : Expr) : Argument.Alike (.generator e) (.generator e)

def bareArgument (parse : Goal → Parser Node) : Parser Argument := do
  let node ← parse .named
  if ← atClause then
    let cs ← clauses parse
    if ← atSymbol ")" then return .generator (.collect .generator node.expr cs) else failure
  else if ← atSymbol "=" then failure
  else return .positional node.expr node.span

theorem argument_eq (parse : Goal → Parser Node) : argument parse = (do
    if ← accept "*" then return .positional (.starred (← parseExpr parse .expression)) ⟨0, 0⟩
    else if ← accept "**" then return .keyword none (← parseExpr parse .expression)
    else
      match ← peek, ← peekSecond with
      | some (.name _), some (.symbol "=") =>
        let name ← identifier
        expect "="
        return .keyword (some name) (← parseExpr parse .expression)
      | _, _ => bareArgument parse) := rfl

def positional (arguments : List Argument) : List Expr :=
  (arguments.filterMap fun
    | .positional e span => some (e, span)
    | _ => none).map (·.1)

/-- The expressions that are given by name. -/
def keywords (arguments : List Argument) : List (Option String × Expr) :=
  arguments.filterMap fun
    | .keyword label e => some (label, e)
    | _ => none

section

variable {as bs : List Argument}

theorem argumentsInOrder_alike (h : List.Forall₂ Argument.Alike as bs) (named spread : Bool) :
    argumentsInOrder as named spread = argumentsInOrder bs named spread := by
  induction h generalizing named spread with
  | nil => rfl
  | cons hab hall ih =>
    cases hab with
    | positional e s t => cases e <;> simp only [argumentsInOrder, ih]
    | keyword name e => cases name <;> simp only [argumentsInOrder, ih]
    | generator e => rfl

theorem positional_alike (h : List.Forall₂ Argument.Alike as bs) :
    positional as = positional bs := by
  induction h with
  | nil => rfl
  | cons hab hall ih =>
    cases hab with
    | positional e s t => exact congrArg (e :: ·) ih
    | keyword name e | generator e => exact ih

theorem keywords_alike (h : List.Forall₂ Argument.Alike as bs) : keywords as = keywords bs := by
  induction h with
  | nil => rfl
  | cons hab hall ih =>
    cases hab with
    | keyword name e => exact congrArg ((name, e) :: ·) ih
    | positional e s t | generator e => exact ih

end

section

variable {targets : Bool} {ks : List LexemeKind} {V W : Window} {i r m n x : Nat} {c : Char}
  {pending : List Char} (hT : Twins targets ks V W) (hB : Below targets ks V W i r m n)
  (hix : i < x) (hx : Open ks x (c :: pending))

include hT hB hix hx

theorem bareArgument_alike :
    Alike V W x (bareArgument (parseWithin m)) (bareArgument (parseWithin n))
      (Moved ks x (c :: pending) Argument.Alike) := by
  unfold bareArgument
  refine (hB.goals x .named _ (by omega) (by omega) hx (allowed_inside .named)).bind ?_
  rintro node node' j hnode
  have hij := hnode.lt
  have hj := hnode.opened
  refine (atClause_alike hT hj).bind ?_
  rintro b _ _ ⟨rfl, rfl⟩
  cases b with
  | true =>
    refine (clauses_alike hT hB (by omega) hj).bind ?_
    rintro cs _ k ⟨rfl, hjk, hk⟩
    refine (hT.atSymbol hk.le hk.tells).bind ?_
    rintro _ _ _ (⟨-⟩ | ⟨-⟩)
    · exact .pure ⟨hnode.expr ▸ .generator _, by omega, hk⟩
    · exact .failure
  | false =>
    refine (hT.atSymbol hj.le hj.tells).bind ?_
    rintro _ _ _ (⟨-⟩ | ⟨-⟩)
    · exact .failure
    · exact .pure ⟨hnode.expr ▸ .positional _ _ _, hij, hj⟩

theorem argument_alike :
    Alike V W x (argument (parseWithin m)) (argument (parseWithin n))
      (Moved ks x (c :: pending) Argument.Alike) := by
  have hmarked {k : LexemeKind} (hk : ks[x]? = some k) (hplain : Plain k) {f g : Expr → Argument}
      (hfg : ∀ e, (f e).Alike (g e)) :
      Alike V W (x + 1) (do return f (← parseExpr (parseWithin m) .expression))
        (do return g (← parseExpr (parseWithin n) .expression))
        (Moved ks x (c :: pending) Argument.Alike) := by
    refine (hB.expr (by omega) (by omega) (hx.step hk (hplain _))
      (allowed_inside .expression)).bind ?_
    rintro e _ j ⟨rfl, hlt, hj⟩
    exact .pure ⟨hfg e, by omega, hj⟩
  have hbare := bareArgument_alike hT hB hix hx
  rw [argument_eq, argument_eq]
  refine (hT.accept hx.le hx.tells).bind ?_
  rintro _ _ _ (⟨hk⟩ | ⟨hk⟩)
  · exact hmarked hk (plain_symbol (by decide)) fun e => .positional _ _ _
  refine (hT.accept hx.le hx.tells).bind ?_
  rintro _ _ _ (⟨hk⟩ | ⟨hk⟩)
  · exact hmarked hk (plain_symbol (by decide)) fun e => .keyword _ _
  refine (hT.peek hx.le).bind ?_
  rintro a b _ ⟨hseen, rfl⟩
  refine (hT.peekSecond x).bind ?_
  rintro a' b' _ ⟨hsecond, rfl⟩
  specialize hsecond (hx.lt (List.cons_ne_nil c pending))
  cases hseen with
  | behind hle => exact absurd (hx.lt (List.cons_ne_nil c pending)) (Nat.not_lt_of_le hle)
  | @inside k hk =>
    by_cases hname : ∃ s, k = .name s
    · obtain ⟨s, rfl⟩ := hname
      have hnext := hx.step hk rfl
      cases hsecond with
      | behind hle => exact absurd (hnext.lt (List.cons_ne_nil c pending)) (Nat.not_lt_of_le hle)
      | inside hk' =>
        split
        · rename_i hsymbol
          cases hsymbol
          refine (hT.identifier x).bind ?_
          rintro a _ _ ⟨rfl, -, rfl⟩
          refine (hT.expect hnext.le hnext.tells).bind ?_
          rintro _ _ _ ⟨-, rfl⟩
          refine (hB.expr (by omega) (by omega) (hnext.step hk' (plain_symbol (by decide) _))
            (allowed_inside .expression)).bind ?_
          rintro e _ j ⟨rfl, hlt, hj⟩
          exact .pure ⟨.keyword _ _, by omega, hj⟩
        · exact hbare
    · cases k with
      | name s => exact absurd ⟨s, rfl⟩ hname
      | _ => exact hbare

end

def indexBound (parse : Goal → Parser Node) : Parser (Option Expr) := do
  if (← atSymbol ":") || (← atSymbol "]") || (← atSymbol ",") then return none
  else return some (← parseExpr parse .expression)

def indexStep (parse : Goal → Parser Node) : Parser (Option Expr) := do
  if ← accept ":" then indexBound parse else return none

theorem subscriptItem_eq (parse : Goal → Parser Node) : subscriptItem parse = (do
    if ← accept "*" then return .starred (← parseExpr parse .expression)
    else if ← atAssignment then parseExpr parse .named
    else
      let start ← indexBound parse
      if ← accept ":" then
        let stop ← indexBound parse
        let step ← indexStep parse
        return .slice start stop step
      else
        match start with
        | some e => return e
        | none => failure) := rfl

section

variable {targets : Bool} {ks : List LexemeKind} {V W : Window} {i r m n x : Nat} {c : Char}
  {pending : List Char} (hT : Twins targets ks V W) (hB : Below targets ks V W i r m n)
  (hix : i < x) (hx : Open ks x (c :: pending))

include hT hB hix hx

theorem indexBound_alike :
    Alike V W x (indexBound (parseWithin m)) (indexBound (parseWithin n))
      fun a b j => Kept ks x (c :: pending) Eq a b j ∧ (a.isSome → x < j) := by
  have hread : Alike V W x (do return some (← parseExpr (parseWithin m) .expression))
      (do return some (← parseExpr (parseWithin n) .expression))
      fun a b j => Kept ks x (c :: pending) Eq a b j ∧ (a.isSome → x < j) := by
    refine (hB.expr (by omega) (by omega) hx (allowed_inside .expression)).bind ?_
    rintro e _ j ⟨rfl, hlt, hj⟩
    exact .pure ⟨⟨rfl, by omega, hj⟩, fun _ => hlt⟩
  unfold indexBound
  refine (hT.atSymbol hx.le hx.tells).bind ?_
  rintro _ _ _ (⟨-⟩ | ⟨-⟩) <;> refine (hT.atSymbol hx.le hx.tells).bind ?_ <;>
    rintro _ _ _ (⟨-⟩ | ⟨-⟩) <;> refine (hT.atSymbol hx.le hx.tells).bind ?_ <;>
    rintro _ _ _ (⟨-⟩ | ⟨-⟩) <;>
    first
      | exact hread
      | exact .pure ⟨⟨rfl, Nat.le_refl x, hx⟩, nofun⟩

theorem indexStep_alike :
    Alike V W x (indexStep (parseWithin m)) (indexStep (parseWithin n))
      (Kept ks x (c :: pending) Eq) := by
  unfold indexStep
  refine (hT.accept hx.le hx.tells).bind ?_
  rintro _ _ _ (⟨hk⟩ | ⟨hk⟩)
  · refine (indexBound_alike hT hB (by omega) (hx.step hk (plain_symbol (by decide) _))).mono ?_
    rintro a b j ⟨⟨hab, hxj, hj⟩, -⟩
    exact ⟨hab, by omega, hj⟩
  · exact .pure ⟨rfl, Nat.le_refl x, hx⟩

theorem subscriptItem_alike :
    Alike V W x (subscriptItem (parseWithin m)) (subscriptItem (parseWithin n))
      (Moved ks x (c :: pending) Eq) := by
  rw [subscriptItem_eq, subscriptItem_eq]
  refine (hT.accept hx.le hx.tells).bind ?_
  rintro _ _ _ (⟨hk⟩ | ⟨hk⟩)
  · refine (hB.expr (by omega) (by omega) (hx.step hk (plain_symbol (by decide) _))
      (allowed_inside .expression)).bind ?_
    rintro e _ j ⟨rfl, hlt, hj⟩
    exact .pure ⟨rfl, by omega, hj⟩
  refine (atAssignment_alike hT (hx.lt (List.cons_ne_nil c pending))).bind ?_
  rintro _ _ _ (⟨-⟩ | ⟨-⟩)
  · exact hB.expr (by omega) (by omega) hx (allowed_inside .named)
  refine (indexBound_alike hT hB hix hx).bind ?_
  rintro start _ j ⟨⟨rfl, hxj, hj⟩, hmoved⟩
  refine (hT.accept hj.le hj.tells).bind ?_
  rintro _ _ _ (⟨hk'⟩ | ⟨hk'⟩)
  · have hnext := hj.step hk' (plain_symbol (by decide) _)
    refine (indexBound_alike hT hB (by omega) hnext).bind ?_
    rintro stop _ k ⟨⟨rfl, hjk, hk⟩, -⟩
    refine (indexStep_alike hT hB (by omega) hk).bind ?_
    rintro step _ l ⟨rfl, hkl, hl⟩
    exact .pure ⟨rfl, by omega, hl⟩
  · cases start with
    | none => exact .failure
    | some e => exact .pure ⟨rfl, hmoved rfl, hj⟩

omit hx in
theorem subscriptIndex_alike (hx : Open ks x (']' :: pending)) :
    Alike V W x (subscriptIndex (parseWithin m)) (subscriptIndex (parseWithin n))
      (Moved ks x pending Eq) := by
  unfold subscriptIndex
  refine (subscriptItem_alike hT hB hix hx).bind ?_
  rintro first _ j ⟨rfl, hxj, hj⟩
  refine (hT.accept hj.le hj.tells).bind ?_
  rintro _ _ _ (⟨hk⟩ | ⟨hk⟩)
  · exact .pure ⟨rfl, by omega, hj.step hk rfl⟩
  · refine (hT.expect hj.le hj.tells).bind ?_
    rintro _ _ _ ⟨hk', rfl⟩
    have hnext := hj.step hk' (plain_symbol (by decide) _)
    have hcloser : shift (']' :: pending) (.symbol "]") = some pending := rfl
    have hitems := Alike.itemsUntil hT hcloser hnext fun y (hy : j + 1 ≤ y) hyo =>
      subscriptItem_alike hT hB (by omega) hyo
    refine hitems.bind ?_
    rintro as bs k ⟨hall, hjk, hopen⟩
    rw [List.forall₂_eq_eq_eq] at hall
    subst hall
    exact .pure ⟨rfl, by omega, hopen⟩

end

end Stencil.Grammar
