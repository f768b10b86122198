import Stencil.Proofs.LocalReading

/-!
# Words of statements

Some reserved words stand in statements only. No rule of the grammar reads one of them, so none is
among the lexemes of a text that is read as an expression.
-/

namespace Stencil.Grammar

open Stencil.Expr (Lexeme LexemeKind)
open Stencil.Grammar.Parser

def statementWords : List String :=
  ["as", "assert", "break", "class", "continue", "def", "del", "elif", "except", "finally", "global",
    "import", "nonlocal", "pass", "raise", "return", "try", "while", "with"]

theorem reserved_of_statementWord {s : String} (h : s ∈ statementWords) : s ∈ reservedWords :=
  (by decide : ∀ s ∈ statementWords, s ∈ reservedWords) s h

/-- A lexeme that is a word of statements. -/
def Foreign : LexemeKind → Prop
  | .name s => s ∈ statementWords
  | _ => False

/-- Of the lexemes between two places none is a word of statements. -/
inductive Past : Cursor → Cursor → Prop
  | refl (c : Cursor) : Past c c
  | step {l : Lexeme} {ls : List Lexeme} {stop : Nat} {c : Cursor} (h : ¬ Foreign l.kind)
      (hrest : Past ⟨ls, l.stop⟩ c) : Past ⟨l :: ls, stop⟩ c

namespace Past

theorem trans {c c' c'' : Cursor} (h : Past c c') (h' : Past c' c'') : Past c c'' := by
  induction h with
  | refl => exact h'
  | step hl _ ih => exact .step hl (ih h')

theorem not_foreign {ls : List Lexeme} {m n : Nat} (h : Past ⟨ls, m⟩ ⟨[], n⟩) :
    ∀ l ∈ ls, ¬ Foreign l.kind := by
  generalize hc : Cursor.mk ls m = c at h
  generalize hc' : Cursor.mk [] n = c' at h
  induction h generalizing ls m with
  | refl =>
    cases hc
    cases hc'
    nofun
  | step hl _ ih =>
    cases hc
    exact List.forall_mem_cons.mpr ⟨hl, ih rfl hc'⟩

end Past

/-- The lexeme at a place is of the kind `k`. -/
abbrev Cursor.Shows (c : Cursor) (k : LexemeKind) : Prop := c.rest.head?.map (·.kind) = some k

/-- What `p` reads at the place holds no word of statements. -/
def SparesAt {α : Type} (c : Cursor) (p : Parser α) : Prop :=
  ∀ a c', p.run c = some (a, c') → Past c c'

/-- What `p` reads holds no word of statements. -/
def Spares {α : Type} (p : Parser α) : Prop := ∀ c, SparesAt c p

section

variable {α β : Type} {c : Cursor} {k : LexemeKind} {s : String} {p q : Parser α} {f : α → Parser β}

namespace SparesAt

theorem pure (a : α) : SparesAt c (pure a : Parser α) := by
  intro b c' h
  obtain ⟨-, rfl⟩ := Prod.mk.inj (Option.some.inj h)
  exact .refl _

theorem failure : SparesAt c (failure : Parser α) := nofun

theorem bind (hp : SparesAt c p) (hf : ∀ a, Spares (f a)) : SparesAt c (p >>= f) := by
  intro b c'' h
  rw [StateT.run_bind] at h
  obtain ⟨⟨a, c'⟩, hrun, hrest⟩ := Option.bind_eq_some_iff.mp h
  exact (hp a c' hrun).trans (hf a c' b c'' hrest)

theorem ite {b : Prop} [Decidable b] (hp : SparesAt c p) (hq : SparesAt c q) :
    SparesAt c (if b then p else q) := by
  split
  · exact hp
  · exact hq

theorem orElse (hp : SparesAt c p) (hq : SparesAt c q) : SparesAt c (p <|> q) := by
  intro a c' h
  have hrun : (p <|> q).run c = (p.run c <|> q.run c) := rfl
  rw [hrun] at h
  cases hfirst : p.run c with
  | none =>
    rw [hfirst] at h
    exact hq a c' h
  | some r =>
    rw [hfirst] at h
    cases h
    exact hp a c' hfirst

theorem get {f : Cursor → Parser β} (h : SparesAt c (f c)) : SparesAt c (get >>= f) := h

/-- A check that stops a rule in the middle. -/
theorem check {b : Prop} [Decidable b] {rest : PUnit → Parser α} (h : SparesAt c (rest ⟨⟩)) :
    SparesAt c (if b then Alternative.failure >>= rest else rest ⟨⟩) := .ite nofun h

/-- What only looks at lexemes. -/
theorem still {a : α} (hp : p.run c = some (a, c)) (h : SparesAt c (f a)) :
    SparesAt c (p >>= f) := by
  intro b c' hrun
  rw [StateT.run_bind, hp] at hrun
  exact h b c' hrun

theorem startOffset {f : Nat → Parser β} (h : ∀ n, SparesAt c (f n)) :
    SparesAt c (startOffset >>= f) := h _

theorem peek {f : Option LexemeKind → Parser β} (hnone : SparesAt c (f none))
    (hsome : ∀ k, c.Shows k → SparesAt c (f (some k))) : SparesAt c (peek >>= f) := by
  change SparesAt c (f (c.rest.head?.map (·.kind)))
  cases hk : c.rest.head?.map (·.kind) with
  | none => exact hnone
  | some k => exact hsome k hk

theorem peekSecond {f : Option LexemeKind → Parser β} (h : ∀ k, SparesAt c (f k)) :
    SparesAt c (peekSecond >>= f) := h _

theorem look {f : Bool → Parser β} (hyes : c.Shows k → SparesAt c (f true))
    (hno : SparesAt c (f false)) :
    SparesAt c ((do return decide ((← Parser.peek) = some k)) >>= f) := by
  change SparesAt c (f (decide (c.Shows k)))
  by_cases hk : c.Shows k
  · rw [decide_eq_true hk]
    exact hyes hk
  · rw [decide_eq_false hk]
    exact hno

theorem next {f : LexemeKind → Parser β} (hk : c.Shows k) (h : ¬ Foreign k) (hf : Spares (f k)) :
    SparesAt c (next >>= f) := by
  obtain ⟨rest, stop⟩ := c
  obtain ⟨l, hl, rfl⟩ := Option.map_eq_some_iff.mp hk
  obtain ⟨ls, rfl⟩ := List.head?_eq_some_iff.mp hl
  exact fun b c' hrun => .step h (hf ⟨ls, l.stop⟩ b c' hrun)

theorem two {k' : LexemeKind} {p : Parser β} (hk : c.Shows k)
    (hk' : (c.rest.drop 1).head?.map (·.kind) = some k') (h : ¬ Foreign k) (h' : ¬ Foreign k')
    (hp : Spares p) : SparesAt c (do
      let _ ← Parser.next
      let _ ← Parser.next
      p) := by
  obtain ⟨rest, stop⟩ := c
  obtain ⟨l, hl, rfl⟩ := Option.map_eq_some_iff.mp hk
  obtain ⟨ls, rfl⟩ := List.head?_eq_some_iff.mp hl
  have hrest : SparesAt ⟨ls, l.stop⟩ (Parser.next >>= fun _ => p) := .next hk' h' hp
  exact fun b c' hrun => .step h (hrest b c' hrun)

theorem take {f : Bool → Parser β} (hk : ¬ Foreign k) (hyes : Spares (f true))
    (hno : SparesAt c (f false)) :
    SparesAt c ((do
      if ← (do return decide ((← Parser.peek) = some k)) then
        let _ ← Parser.next
        return true
      else return false) >>= f) := by
  rw [bind_assoc]
  refine .look (fun hshows => ?_) hno
  rw [if_pos rfl, bind_assoc]
  exact .next hshows hk hyes

theorem spanned {p : Parser Expr} (hp : SparesAt c p) : SparesAt c (spanned p) := by
  intro x c'' h
  obtain ⟨⟨e, c'⟩, hrun, hrest⟩ := Option.bind_eq_some_iff.mp
    (show ((p.run c).bind fun r => some (Node.of r.1 _ r.2.stop, r.2)) = some (x, c'') from h)
  cases hrest
  exact hp e c' hrun

end SparesAt

theorem SparesAt.accept (hp : Spares p) (hq : SparesAt c q) :
    SparesAt c (do if ← accept s then p else q) := .take (k := .symbol s) id hp hq

theorem SparesAt.acceptWord (hs : s ∉ statementWords) (hp : Spares p) (hq : SparesAt c q) :
    SparesAt c (do if ← acceptWord s then p else q) := .take (k := .name s) hs hp hq

theorem SparesAt.atSymbol (hp : c.Shows (.symbol s) → SparesAt c p) (hq : SparesAt c q) :
    SparesAt c (do if ← atSymbol s then p else q) := .look hp hq

theorem SparesAt.atWord (hp : c.Shows (.name s) → SparesAt c p) (hq : SparesAt c q) :
    SparesAt c (do if ← atWord s then p else q) := .look hp hq

theorem SparesAt.symbol {f : LexemeKind → Parser β} (hk : c.Shows (.symbol s))
    (hf : Spares (f (.symbol s))) : SparesAt c (Parser.next >>= f) := .next hk id hf

theorem SparesAt.word {f : LexemeKind → Parser β} (hk : c.Shows (.name s))
    (hs : s ∉ statementWords) (hf : Spares (f (.name s))) : SparesAt c (Parser.next >>= f) :=
  .next hk hs hf

namespace Spares

theorem expect : Spares (expect s) := fun _ =>
  .accept (fun _ => .pure _) .failure

theorem expectWord (hs : s ∉ statementWords) : Spares (expectWord s) := fun _ =>
  .acceptWord hs (fun _ => .pure _) .failure

theorem identifier : Spares identifier := by
  rintro ⟨ls, stop⟩ a c' h
  cases ls with
  | nil => cases h
  | cons l ls =>
    have hrun : Parser.identifier.run ⟨l :: ls, stop⟩ = (match l.kind with
      | .name s => if reservedWords.contains s then Alternative.failure else return Text.normalForm s
      | _ => Alternative.failure : Parser String).run ⟨ls, l.stop⟩ := rfl
    rw [hrun] at h
    split at h
    · rename_i s hs
      split at h
      · cases h
      · rename_i hword
        cases h
        refine .step (fun hforeign => hword ?_) (.refl _)
        rw [hs] at hforeign
        rw [List.contains_iff_mem]
        exact reserved_of_statementWord hforeign
    · cases h

theorem attempt (hp : Spares p) : Spares (attempt p) := fun c =>
  .orElse (.bind (hp c) fun _ _ => .pure _) (.pure _)

theorem mapM {f : α → Parser β} (hf : ∀ a, Spares (f a)) (as : List α) : Spares (as.mapM f) := by
  induction as with
  | nil => exact fun _ => .pure _
  | cons a as ih =>
    rw [List.mapM_cons]
    exact fun c => .bind (hf a c) fun b c => .bind (ih c) fun _ _ => .pure _

theorem lift (o : Option α) : Spares (liftM o : Parser α) := by
  intro c a c' h
  cases o with
  | none => cases h
  | some a =>
    cases h
    exact .refl _

theorem repeatFrom {p : Parser (Option α)} (hp : Spares p) (n : Nat) : Spares (repeatFrom p n) := by
  induction n with
  | zero => exact fun _ => .failure
  | succ n ih =>
    refine fun c => .bind (hp c) fun r c => ?_
    cases r with
    | none => exact .pure _
    | some a => exact .bind (ih c) fun _ _ => .pure _

theorem repeated {p : Parser (Option α)} (hp : Spares p) : Spares (repeated p) := fun c =>
  .get (hp.repeatFrom _ c)

theorem moreItems (hp : Spares p) : Spares (moreItems p) :=
  Spares.repeated fun _ => .accept hp.attempt (.pure _)

theorem itemsUntil (hp : Spares p) : Spares (itemsUntil s p) := by
  refine Spares.repeated fun c => .accept (fun _ => .pure _) (.bind (hp c) fun _ _ => ?_)
  exact .accept (fun _ => .pure _) (.atSymbol (fun _ => .pure _) .failure)

end Spares

end

theorem SparesAt.atAssignment {α : Type} {c : Cursor} {p q : Parser α} (hp : SparesAt c p)
    (hq : SparesAt c q) : SparesAt c (do if ← atAssignment then p else q) := by
  obtain ⟨b, hb⟩ := atAssignment_run c
  exact .still hb (.ite hp hq)

theorem SparesAt.atClause {α : Type} {c : Cursor} {p q : Parser α} (hp : SparesAt c p)
    (hq : SparesAt c q) : SparesAt c (do if ← atClause then p else q) :=
  .still (p := Grammar.atClause) rfl (.ite hp hq)

theorem spares_binaryAt (level : Nat) : Spares (binaryAt level) := by
  refine fun c => .peek (.pure _) fun k hk => ?_
  cases k with
  | symbol s =>
    dsimp only
    split
    · exact .symbol hk fun _ => .pure _
    · exact .pure _
  | _ => exact .pure _

theorem spares_comparisonAt : Spares comparisonAt := by
  intro c
  unfold comparisonAt
  refine .peek (.still rfl (.pure _)) fun k hk => .still (a := _) rfl ?_
  split
  case h_1 heq =>
    cases heq
    exact .ite (.symbol hk fun _ => .pure _) (.pure _)
  case h_2 heq =>
    cases heq
    exact .word hk (by decide) fun _ => .pure _
  case h_3 heq heq' =>
    cases heq
    exact .two hk heq' (by decide : "not" ∉ statementWords) (by decide : "in" ∉ statementWords)
      fun _ => .pure _
  case h_4 heq heq' =>
    cases heq
    exact .two hk heq' (by decide : "is" ∉ statementWords) (by decide : "not" ∉ statementWords)
      fun _ => .pure _
  case h_5 heq _ =>
    cases heq
    exact .word hk (by decide) fun _ => .pure _
  case h_6 => exact .pure _

section

variable {parse : Goal → Parser Node} (h : ∀ g, Spares (parse g)) {c : Cursor}

include h

theorem spares_parseExpr (g : Goal) : Spares (parseExpr parse g) := fun c =>
  .bind (h g c) fun _ _ => .pure _

theorem spares_clauses : Spares (clauses parse) := by
  have hexpr := spares_parseExpr h
  unfold clauses
  refine Spares.repeated fun c => ?_
  have hclause (asynchronous : Bool) : Spares (do
      if ← acceptWord "for" then
        let target ← parseExpr parse .targets
        expectWord "in"
        let source ← parseExpr parse .disjunction
        let conditions ← repeated do
          if ← acceptWord "if" then return some (← parseExpr parse .disjunction) else return none
        return some (Clause.mk target source conditions asynchronous)
      else return none) := by
    refine fun c => .acceptWord (by decide) (fun c => .bind (hexpr _ c) fun _ c => ?_) (.pure _)
    refine .bind (Spares.expectWord (by decide) c) fun _ c => .bind (hexpr _ c) fun _ c => ?_
    refine .bind (Spares.repeated (fun c => ?_) c) fun _ _ => .pure _
    exact .acceptWord (by decide) (fun c => .bind (hexpr _ c) fun _ _ => .pure _) (.pure _)
  refine .peekSecond fun second => .look (fun hk => ?_) (hclause _ c)
  exact .ite (.word hk (by decide) (hclause _)) (hclause _ c)

theorem spares_defaultValue : Spares (defaultValue parse) := fun _ =>
  .accept (fun c => .bind (spares_parseExpr h _ c) fun _ _ => .pure _) (.pure _)

theorem spares_signatureFrom (n : Nat) (sig : Signature) : Spares (signatureFrom parse n sig) := by
  induction n generalizing sig with
  | zero => exact fun _ => .failure
  | succ n ih =>
    intro c
    unfold signatureFrom
    refine .atSymbol (fun _ => .ite .failure (.pure _)) (.ite .failure ?_)
    have hmore (sig : Signature) : Spares (do
        if ← accept "," then signatureFrom parse n sig
        else if ← atSymbol ":" then signatureFrom parse n sig
        else failure) := fun c => .accept (ih sig) (.atSymbol (fun _ => ih sig c) .failure)
    have hname {α : Type} (f : String → α) : Spares (do return f (← identifier)) := fun c =>
      .bind (Spares.identifier c) fun _ _ => .pure _
    refine .bind (.accept (fun c => .check (hname _ c)) ?_) hmore
    refine .accept (fun c => .check (.atSymbol (fun _ => .pure _) (hname _ c))) ?_
    refine .accept (fun c => .check (.pure _)) (.bind (Spares.identifier c) fun name c => ?_)
    refine .bind (spares_defaultValue h c) fun value c => .ite (.pure _) ?_
    cases value with
    | some v => exact .pure _
    | none => exact .ite (.pure _) .failure

theorem spares_lambdaRule : Spares (lambdaRule parse) := by
  unfold lambdaRule
  refine fun c => .get (.bind (spares_signatureFrom h _ _ c) fun sig c => ?_)
  exact .bind (Spares.expect c) fun _ c => .bind (spares_parseExpr h _ c) fun _ _ => .pure _

theorem spares_expressionRule : Spares (expressionRule parse) := by
  intro c
  refine .atWord (fun hk => .spanned (.word hk (by decide) (spares_lambdaRule h))) ?_
  refine .startOffset fun start => .bind (h _ c) fun yes c => .orElse ?_ (.pure _)
  refine .bind (Spares.expectWord (by decide) c) fun _ c => .bind (spares_parseExpr h _ c) fun _ c => ?_
  refine .bind (Spares.expectWord (by decide) c) fun _ c => .bind (spares_parseExpr h _ c) fun _ c => ?_
  exact .get (.pure _)

theorem spares_namedRule : Spares (namedRule parse) := by
  refine fun c => .atAssignment (.spanned (.bind (Spares.identifier c) fun _ c => ?_)) (h _ c)
  exact .bind (Spares.expect c) fun _ c => .bind (spares_parseExpr h _ c) fun _ _ => .pure _

theorem spares_starRule (g : Goal) : Spares (starRule parse g) := fun c =>
  .atSymbol (fun hk => .spanned (.symbol hk fun c => .bind (spares_parseExpr h _ c) fun _ _ =>
    .pure _)) (h g c)

theorem spares_tupleRule (g : Goal) : Spares (tupleRule parse g) := by
  refine fun c => .startOffset fun start => .bind (h g c) fun first c => .atSymbol (fun _ => ?_) (.pure _)
  exact .bind ((spares_parseExpr h g).moreItems c) fun rest c => .get (.pure _)

theorem spares_booleanRule (any : Bool) {word : String} (hword : word ∉ statementWords) (g : Goal) :
    Spares (booleanRule parse any word g) := by
  refine fun c => .startOffset fun start => .bind (h g c) fun first c => ?_
  refine .bind (Spares.repeated (fun c => ?_) c) fun rest c => .ite (.pure _) (.get (.pure _))
  exact .acceptWord hword (fun c => .bind (spares_parseExpr h g c) fun _ _ => .pure _) (.pure _)

theorem spares_inversionRule : Spares (inversionRule parse) := fun c =>
  .atWord (fun hk => .spanned (.word hk (by decide) fun c => .bind (spares_parseExpr h _ c) fun _ _ =>
    .pure _)) (h _ c)

theorem spares_comparisonRule : Spares (comparisonRule parse) := by
  refine fun c => .startOffset fun start => .bind (h _ c) fun first c => ?_
  refine .bind (Spares.repeated (fun c => .bind (spares_comparisonAt c) fun op c => ?_) c) fun rest c =>
    .ite (.pure _) (.get (.pure _))
  cases op with
  | none => exact .pure _
  | some op => exact .bind (spares_parseExpr h _ c) fun _ _ => .pure _

theorem spares_operationRule (level : Nat) : Spares (operationRule parse level) := by
  refine fun c => .ite (h _ c) (.startOffset fun start => .bind (h _ c) fun first c => ?_)
  refine .bind (Spares.repeated (fun c => .bind (spares_binaryAt level c) fun op c => ?_) c)
    fun rest c => .ite (.pure _) (.get (.pure _))
  cases op with
  | none => exact .pure _
  | some op => exact .bind (spares_parseExpr h _ c) fun _ _ => .pure _

theorem spares_factorRule : Spares (factorRule parse) := by
  refine fun c => .peek (h _ c) fun k hk => ?_
  cases k with
  | symbol s =>
    dsimp only
    split
    · exact .spanned (.symbol hk fun c => .bind (spares_parseExpr h _ c) fun _ _ => .pure _)
    · exact h _ c
  | _ => exact h _ c

theorem spares_powerRule : Spares (powerRule parse) := by
  refine fun c => .startOffset fun start => .bind (h _ c) fun base c => .accept (fun c => ?_) (.pure _)
  exact .bind (spares_parseExpr h _ c) fun _ _ => .get (.pure _)

theorem spares_awaitedRule : Spares (awaitedRule parse) := fun c =>
  .atWord (fun hk => .spanned (.word hk (by decide) fun c => .bind (spares_parseExpr h _ c) fun _ _ =>
    .pure _)) (h _ c)

theorem spares_argument : Spares (argument parse) := by
  have hexpr := spares_parseExpr h
  refine fun c => .accept (fun c => .bind (hexpr _ c) fun _ _ => .pure _) ?_
  refine .accept (fun c => .bind (hexpr _ c) fun _ _ => .pure _) (.still rfl (.still rfl ?_))
  split
  · refine .bind (Spares.identifier c) fun _ c => .bind (Spares.expect c) fun _ c => ?_
    exact .bind (hexpr _ c) fun _ _ => .pure _
  · refine .bind (h _ c) fun _ c => .atClause (.bind (spares_clauses h c) fun _ c => ?_) ?_
    · exact .atSymbol (fun _ => .pure _) .failure
    · exact .atSymbol (fun _ => .failure) (.pure _)

theorem spares_subscriptItem : Spares (subscriptItem parse) := by
  have hexpr := spares_parseExpr h
  refine fun c => .accept (fun c => .bind (hexpr _ c) fun _ _ => .pure _) ?_
  refine .atAssignment (hexpr _ c) ?_
  have hbound : Spares (do
      if (← atSymbol ":") || (← atSymbol "]") || (← atSymbol ",") then return none
      else return some (← parseExpr parse .expression)) := fun c =>
    .still rfl (.still rfl (.still rfl (.ite (.pure _) (.bind (hexpr _ c) fun _ _ => .pure _))))
  refine .bind (hbound c) fun start c => .accept (fun c => .bind (hbound c) fun stop c => ?_) ?_
  · exact .bind (.accept hbound (.pure _)) fun _ _ => .pure _
  · cases start with
    | some e => exact .pure _
    | none => exact .failure

theorem spares_subscriptIndex : Spares (subscriptIndex parse) := by
  have hitem := spares_subscriptItem h
  refine fun c => .bind (hitem c) fun first c => .accept (fun _ => .pure _) ?_
  exact .bind (Spares.expect c) fun _ c => .bind (hitem.itemsUntil c) fun _ _ => .pure _

theorem spares_trailers (start n : Nat) (node : Node) : Spares (trailers parse start n node) := by
  induction n generalizing node with
  | zero => exact fun _ => .failure
  | succ n ih =>
    intro c
    unfold trailers
    refine .accept (fun c => .bind (Spares.identifier c) fun _ c => .get (ih _ c)) ?_
    refine .atSymbol (fun hk => .startOffset fun opening => .symbol hk fun c => ?_) ?_
    · refine .bind ((spares_argument h).itemsUntil c) fun arguments c => .get ?_
      split
      · exact ih _ c
      · exact .check (ih _ c)
    · exact .accept (fun c => .bind (spares_subscriptIndex h c) fun _ c => .get (ih _ c)) (.pure _)

theorem spares_primaryRule : Spares (primaryRule parse) := fun c =>
  .startOffset fun _ => .bind (h _ c) fun _ c => .get (spares_trailers h _ _ _ c)

theorem spares_yieldRule : Spares (yieldRule parse) := by
  have hexpr := spares_parseExpr h
  refine fun c => .acceptWord (by decide) (fun c => .bind (hexpr _ c) fun _ _ => .pure _) ?_
  exact .atSymbol (fun _ => .pure _) (.bind (hexpr _ c) fun _ _ => .pure _)

theorem spares_bracketed (closer : String) (kind : Display) (collector : Collector) (first : Expr) :
    Spares (bracketed parse closer kind collector first) := by
  refine fun c => .atClause (.check (.bind (spares_clauses h c) fun _ c => ?_)) ?_
  · exact .bind (Spares.expect c) fun _ _ => .pure _
  · refine .bind ((spares_parseExpr h _).moreItems c) fun _ c => ?_
    exact .bind (Spares.expect c) fun _ _ => .pure _

theorem spares_dictEntry : Spares (dictEntry parse) := by
  have hexpr := spares_parseExpr h
  refine fun c => .accept (fun c => .bind (hexpr _ c) fun _ _ => .pure _) (.bind (hexpr _ c) fun key c => ?_)
  exact .bind (Spares.expect c) fun _ c => .bind (hexpr _ c) fun _ _ => .pure _

theorem spares_parenthesized : Spares (parenthesized parse) := by
  have hwrap (e : Expr) : Spares (do return (Node.of e 0 (← get).stop, false) : Parser (Node × Bool)) :=
    fun c => .get (.pure _)
  refine fun c => .accept (hwrap _) (.atWord (fun hk => ?_) ?_)
  · refine .bind (.spanned (.word hk (by decide) (spares_yieldRule h))) fun _ c => ?_
    exact .bind (Spares.expect c) fun _ _ => .pure _
  · refine .bind (h _ c) fun first c => .accept (fun c => ?_) (.atClause (.check ?_) ?_)
    · exact .bind ((spares_parseExpr h _).itemsUntil c) fun _ c => hwrap _ c
    · refine .bind (spares_clauses h c) fun _ c => ?_
      exact .bind (Spares.expect c) fun _ c => hwrap _ c
    · exact .bind (Spares.expect c) fun _ c => .check (.pure _)

theorem spares_braced : Spares (braced parse) := by
  have hexpr := spares_parseExpr h
  have hentries := (spares_dictEntry h).itemsUntil (s := "\x7d")
  refine fun c => .accept (fun c => .pure _) (.atSymbol (fun _ => ?_) ?_)
  · exact .bind (hentries c) fun _ _ => .pure _
  · obtain ⟨b, hb⟩ := atAssignment_run c
    refine .still hb (.bind (hexpr _ c) fun first c => .accept (fun c => .check ?_) ?_)
    · refine .bind (hexpr _ c) fun _ c => .atClause ?_ (.accept (fun c => ?_) ?_)
      · refine .bind (spares_clauses h c) fun _ c => ?_
        exact .bind (Spares.expect c) fun _ _ => .pure _
      · exact .bind (hentries c) fun _ _ => .pure _
      · exact .bind (Spares.expect c) fun _ _ => .pure _
    · exact spares_bracketed h _ _ _ _ c

omit h in
theorem spares_stringsRule : Spares (stringsRule parse) := by
  refine fun c => .bind (Spares.repeated ?_ c) fun parts c => .ite ?_ (.ite .failure ?_)
  · refine fun c => .peek (.pure _) fun k hk => ?_
    cases k with
    | string style body => exact .next hk id fun _ => .pure _
    | _ => exact .pure _
  · exact .bind (Spares.mapM (fun _ => .lift _) parts c) fun _ _ => .pure _
  · exact .bind (Spares.mapM (fun _ => .lift _) parts c) fun _ _ => .ite (.pure _) (.pure _)

theorem spares_atomRule : Spares (atomRule parse) := by
  refine fun c => .peek .failure fun k hk => ?_
  split
  case h_1 heq =>
    cases heq
    refine .startOffset fun start => .symbol hk fun c => ?_
    exact .bind (spares_parenthesized h c) fun _ _ => .pure _
  case h_2 heq =>
    cases heq
    refine .spanned (.symbol hk fun c => .accept (fun _ => .pure _) ?_)
    exact .bind (spares_parseExpr h _ c) fun _ c => spares_bracketed h _ _ _ _ c
  case h_3 heq =>
    cases heq
    exact .spanned (.symbol hk (spares_braced h))
  case h_4 heq =>
    cases heq
    exact .spanned (.symbol hk fun _ => .pure _)
  case h_5 heq => exact .spanned (spares_stringsRule c)
  case h_6 heq =>
    cases heq
    exact .spanned (.next hk id fun _ => .pure _)
  case h_7 heq =>
    cases heq
    refine .spanned ?_
    split
    · exact .word hk (by decide) fun _ => .pure _
    · exact .word hk (by decide) fun _ => .pure _
    · exact .word hk (by decide) fun _ => .pure _
    · split
      · intro e c' hrun
        rw [StateT.run_bind] at hrun
        obtain ⟨_, _, hfailure⟩ := Option.bind_eq_some_iff.mp hrun
        cases hfailure
      · rename_i hreserved
        refine .word hk (fun hword => hreserved ?_) fun _ => .pure _
        rw [List.contains_iff_mem]
        exact reserved_of_statementWord hword
  case h_8 => exact .failure

theorem spares_targetRule : Spares (targetRule parse) := by
  refine fun c => .atSymbol (fun hk => .spanned (.symbol hk fun c => .atSymbol (fun _ => .failure) ?_)) ?_
  · exact .bind (spares_parseExpr h _ c) fun _ _ => .pure _
  · exact .bind (h _ c) fun node c => .ite (.pure _) .failure

theorem spares_rule (g : Goal) : Spares (rule parse g) := by
  cases g with
  | expression => exact spares_expressionRule h
  | expressions => exact spares_tupleRule h _
  | named => exact spares_namedRule h
  | starNamed => exact spares_starRule h _
  | starExpression => exact spares_starRule h _
  | starExpressions => exact spares_tupleRule h _
  | disjunction => exact spares_booleanRule h _ (by decide) _
  | conjunction => exact spares_booleanRule h _ (by decide) _
  | inversion => exact spares_inversionRule h
  | comparison => exact spares_comparisonRule h
  | operation level => exact spares_operationRule h level
  | factor => exact spares_factorRule h
  | power => exact spares_powerRule h
  | awaited => exact spares_awaitedRule h
  | primary => exact spares_primaryRule h
  | atom => exact spares_atomRule h
  | target => exact spares_targetRule h
  | targets => exact spares_tupleRule h _

end

/-- Whatever a goal reads, no word of statements is among it. -/
theorem parseWithin_spares (n : Nat) (g : Goal) : Spares (parseWithin n g) := by
  induction n generalizing g with
  | zero => exact fun _ => .failure
  | succ n ih => exact spares_rule ih g

end Stencil.Grammar
