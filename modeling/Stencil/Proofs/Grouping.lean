import Stencil.Proofs.Parentheses

/-!
# Rows of items in parentheses

A row of items is read alone and between parentheses by different rules: between them an item may
be an assignment, and a single item may stand there as the first part of a comprehension. Where the
row alone reaches up to the closing parenthesis, both rules read the same.
-/

namespace Stencil.Grammar

open Stencil.Expr (Lexeme LexemeKind)
open Stencil.Grammar.Parser

def enough (ks : List LexemeKind) : Nat := 32 * load ks + 33

theorem parseExpr_run (parse : Goal → Parser Node) (g : Goal) (c : Cursor) :
    (parseExpr parse g).run c = outcome (parse g) c := by
  rw [parseExpr, StateT.run_bind, outcome]
  cases (parse g).run c <;> rfl

theorem accept_other {c : Cursor} {s : String} (h : c.rest.head?.map (·.kind) ≠ some (.symbol s)) :
    (accept s).run c = some (false, c) := by
  rw [accept, StateT.run_bind, atSymbol_run, decide_eq_false h]
  rfl

theorem accept_head {l : Lexeme} {ls : List Lexeme} {stop : Nat} {s : String}
    (h : l.kind = .symbol s) : (accept s).run ⟨l :: ls, stop⟩ = some (true, ⟨ls, l.stop⟩) := by
  rw [accept, StateT.run_bind, atSymbol_run, List.head?_cons, Option.map_some, h,
    decide_eq_true rfl]
  rfl

theorem atAssignment_other {c : Cursor} (h : ∀ s, c.rest.head?.map (·.kind) = some (.name s) →
    (c.rest.drop 1).head?.map (·.kind) ≠ some (.symbol ":=")) :
    atAssignment.run c = some (false, c) := by
  have hsecond : peekSecond.run c = some ((c.rest.drop 1).head?.map (·.kind), c) := rfl
  unfold atAssignment
  rw [StateT.run_bind, peek_run, Option.bind_eq_bind, Option.bind_some, StateT.run_bind, hsecond,
    Option.bind_eq_bind, Option.bind_some]
  split
  · rename_i s hhead hassign
    exact absurd hassign (h s hhead)
  · rfl

section

variable {targets : Bool} {ks : List LexemeKind} {V W : Window} {i j m n : Nat} {g : Goal}
  {pending : List Char}

theorem Twins.reads (hT : Twins targets ks V W) (hopen : Open ks i pending)
    (hg : pending = [] → Allowed targets g) (hm : enough ks ≤ m) (hn : enough ks ≤ n) :
    Alike V W i (parseWithin m g) (parseWithin n g) (Read V W ks i pending) := by
  have hload : load (ks.drop i) ≤ load ks := load_drop_le ks (Nat.zero_le i)
  have hrank := rank_lt g
  unfold enough at hm hn
  exact parseWithin_alike hT hopen hg (by omega) (by omega)

theorem Alike.outcome_eq {p q : Parser Node} (h : Alike V V i p q (Read V V ks i pending)) :
    outcome p (V.cursor i) = outcome q (V.cursor i) := by
  rcases h with ⟨hp, hq⟩ | ⟨x, y, j, hp, hq, hread⟩
  · rw [outcome, outcome, hp, hq]
  · rw [outcome, outcome, hp, hq, Option.map_some, Option.map_some, hread.expr]

theorem Alike.outcome_some {p : Parser Node} {e : Expr} {c : Cursor}
    (h : Alike V V i p p (Read V V ks i pending)) (hp : outcome p (V.cursor i) = some (e, c)) :
    ∃ j, i < j ∧ Open ks j pending ∧ c = V.cursor j := by
  rcases h with ⟨hrun, -⟩ | ⟨x, y, j, hrun, -, hread⟩
  · rw [outcome, hrun] at hp
    cases hp
  · rw [outcome, hrun] at hp
    cases hp
    exact ⟨j, hread.lt, hread.opened, rfl⟩

end

theorem starRule_outcome {parse : Goal → Parser Node} {plain : Goal} {c : Cursor} :
    outcome (starRule parse plain) c =
      if c.rest.head?.map (·.kind) = some (.symbol "*") then
        outcome (spanned do
          let _ ← next
          return .starred (← parseExpr parse (.operation 0))) c
      else outcome (parse plain) c := by
  unfold outcome
  rw [starRule, StateT.run_bind, atSymbol_run]
  by_cases hstar : c.rest.head?.map (·.kind) = some (.symbol "*")
  · rw [decide_eq_true hstar, if_pos hstar]
    rfl
  · rw [decide_eq_false hstar, if_neg hstar]
    rfl

section

variable {α : Type} {p : Parser (Option α)} {c c' : Cursor}

theorem repeatFrom_last (h : p.run c = some (none, c')) (fuel : Nat) :
    (repeatFrom p (fuel + 1)).run c = some ([], c') := by
  rw [repeatFrom, StateT.run_bind, h]
  rfl

theorem repeatFrom_more {a : α} (h : p.run c = some (some a, c')) (fuel : Nat) :
    (repeatFrom p (fuel + 1)).run c =
      ((repeatFrom p fuel).run c').map fun r => (a :: r.1, r.2) := by
  rw [repeatFrom, StateT.run_bind, h, Option.bind_eq_bind, Option.bind_some, StateT.run_bind]
  cases (repeatFrom p fuel).run c' <;> rfl

end

def moreRound {α : Type} (item : Parser α) : Parser (Option α) := do
  if ← accept "," then attempt item else return none

def untilRound {α : Type} (closer : String) (item : Parser α) : Parser (Option α) := do
  if ← accept closer then return none
  else
    let a ← item
    if ← accept "," then return some a
    else if ← atSymbol closer then return some a
    else failure

section

variable {α : Type} {item : Parser α} {c c' c'' : Cursor}

theorem moreRound_last (h : c.rest.head?.map (·.kind) ≠ some (.symbol ",")) :
    (moreRound item).run c = some (none, c) := by
  rw [moreRound, StateT.run_bind, accept_other h]
  rfl

theorem moreRound_run (item : Parser α) (h : (accept ",").run c = some (true, c')) :
    (moreRound item).run c = match item.run c' with
      | some (a, c'') => some (some a, c'')
      | none => some (none, c') := by
  have hrun {p q : Parser (Option α)} : (p <|> q).run c' = (p.run c' <|> q.run c') := rfl
  rw [moreRound, StateT.run_bind, h, Option.bind_eq_bind, Option.bind_some]
  dsimp only
  rw [if_pos rfl, attempt, hrun, StateT.run_map]
  cases item.run c' <;> rfl

theorem untilRound_last {closer : String} (h : (accept closer).run c = some (true, c')) :
    (untilRound closer item).run c = some (none, c') := by
  rw [untilRound, StateT.run_bind, h]
  rfl

theorem untilRound_comma {closer : String} {a : α} (h : (accept closer).run c = some (false, c))
    (hitem : item.run c = some (a, c')) (hcomma : (accept ",").run c' = some (true, c'')) :
    (untilRound closer item).run c = some (some a, c'') := by
  rw [untilRound, StateT.run_bind, h, Option.bind_eq_bind, Option.bind_some]
  dsimp only
  rw [if_neg Bool.false_ne_true, StateT.run_bind, hitem, Option.bind_eq_bind, Option.bind_some,
    StateT.run_bind, hcomma]
  rfl

theorem untilRound_closer {closer : String} {a : α} (h : (accept closer).run c = some (false, c))
    (hitem : item.run c = some (a, c')) (hcomma : (accept ",").run c' = some (false, c'))
    (hcloser : c'.rest.head?.map (·.kind) = some (.symbol closer)) :
    (untilRound closer item).run c = some (some a, c') := by
  rw [untilRound, StateT.run_bind, h, Option.bind_eq_bind, Option.bind_some]
  dsimp only
  rw [if_neg Bool.false_ne_true, StateT.run_bind, hitem, Option.bind_eq_bind, Option.bind_some,
    StateT.run_bind, hcomma, Option.bind_eq_bind, Option.bind_some]
  dsimp only
  rw [if_neg Bool.false_ne_true, StateT.run_bind, atSymbol_run, decide_eq_true hcloser]
  rfl

end

section

variable {ks : List LexemeKind} {V : Window} {i n : Nat}

/-- An item that is no assignment is read by either rule. -/
theorem starNamed_outcome (hT : Twins false ks V V) (hi : Open ks i []) (hn : enough ks + 2 ≤ n)
    {e : Expr} {c : Cursor} (h : outcome (parseWithin n .starExpression) (V.cursor i) = some (e, c))
    (hc : c.rest.head?.map (·.kind) ≠ some (.symbol ":=")) :
    outcome (parseWithin n .starNamed) (V.cursor i) = some (e, c) := by
  obtain ⟨n, rfl⟩ : ∃ k, n = k + 2 := ⟨n - 2, by omega⟩
  have hfree (g : Goal) : ([] : List Char) = [] → Allowed false g := fun _ => nofun
  have hexpression : outcome (parseWithin n .expression) (V.cursor i) =
      outcome (parseWithin (n + 1) .expression) (V.cursor i) :=
    (hT.reads hi (hfree _) (by omega) (by omega)).outcome_eq
  have hstarRule (k : Nat) : parseWithin (k + 1) .starNamed = starRule (parseWithin k) .named ∧
      parseWithin (k + 1) .starExpression = starRule (parseWithin k) .expression := ⟨rfl, rfl⟩
  have hnamed : parseWithin (n + 1) .named = namedRule (parseWithin n) := rfl
  rw [(hstarRule _).2, starRule_outcome] at h
  rw [(hstarRule _).1, starRule_outcome]
  split at h
  · rename_i hstar
    rwa [if_pos hstar]
  · rename_i hstar
    rw [if_neg hstar, ← h, ← hexpression, hnamed, namedRule]
    refine outcome_if (atAssignment_other fun s hname hassign => hc ?_) rfl
    obtain ⟨l, l', ls, hcursor⟩ : ∃ l l' ls, (V.cursor i).rest = l :: l' :: ls := by
      generalize (V.cursor i).rest = rest at hname hassign
      rcases rest with _ | ⟨l, _ | ⟨l', ls⟩⟩
      · cases hname
      · cases hassign
      · exact ⟨l, l', ls, rfl⟩
    rw [hcursor] at hname hassign
    obtain ⟨o, ⟨m, hm⟩, hplace⟩ := expression_of_word ls (V.stop i)
      (Option.some.inj hname) (Option.some.inj hassign)
    have hcursor' : V.cursor i = ⟨l :: l' :: ls, V.stop i⟩ := by
      rw [← hcursor]
      rfl
    have hdeep := (hT.reads hi (hfree .expression) (by omega : enough ks ≤ n + 1)
      (by omega : enough ks ≤ max m (n + 1))).outcome_eq
    rw [hcursor', hm _ (Nat.le_max_left _ _)] at hdeep
    rw [hcursor', hdeep] at h
    have hbehind : c = ⟨l' :: ls, l.stop⟩ := hplace _ h
    rw [hbehind]
    exact hassign

theorem cursor_inj {targets : Bool} (hT : Twins targets ks V V) {a b : Nat} (ha : a ≤ ks.length)
    (hb : b ≤ ks.length) (h : V.cursor a = V.cursor b) : a = b := by
  have hlength := congrArg (fun c => c.rest.length) h
  simp only [Window.cursor, List.length_append, List.length_drop,
    Window.length_kinds hT.left] at hlength
  omega

theorem cursor_length {targets : Bool} (hT : Twins targets ks V V) :
    (V.cursor ks.length).rest = V.behind := by
  rw [Window.cursor, List.drop_of_length_le (Nat.le_of_eq (Window.length_kinds hT.left)),
    List.nil_append]

theorem head_of_kind {k : LexemeKind} {targets : Bool} (hT : Twins targets ks V V) (hk : ks[i]? = some k) :
    (V.cursor i).rest.head?.map (·.kind) = some k := Window.kindAt_of_kind hT.left hk

theorem accept_inside {s : String} {targets : Bool} (hT : Twins targets ks V V) (hk : ks[i]? = some (.symbol s)) :
    (accept s).run (V.cursor i) = some (true, V.cursor (i + 1)) := by
  obtain ⟨l, hl, hkind, hcursor⟩ := Window.cursor_of_kind hT.left hk
  have hstop : V.cursor (i + 1) = ⟨(V.cursor (i + 1)).rest, l.stop⟩ := by
    rw [Window.cursor, Window.stop, hl]
    rfl
  rw [hcursor, accept_head hkind, ← hstop]

theorem Open.not_closer (hi : Open ks i []) : ks[i]? ≠ some (.symbol ")") := by
  intro hk
  obtain ⟨next, hshift, -⟩ := hi.shift_of_kind hk
  cases hshift

variable {l : Lexeme} {ls : List Lexeme} (hT : Twins false ks V V) (hbehind : V.behind = l :: ls)
  (hl : l.kind = .symbol ")")

include hT hbehind hl

theorem head_behind : (V.cursor ks.length).rest.head?.map (·.kind) = some (.symbol ")") := by
  rw [cursor_length hT, hbehind, List.head?_cons, Option.map_some, hl]

theorem accept_behind : (accept ")").run (V.cursor ks.length) = some (true, ⟨ls, l.stop⟩) := by
  have hcursor : V.cursor ks.length = ⟨l :: ls, V.stop ks.length⟩ := by
    rw [← hbehind, ← cursor_length hT]
    rfl
  rw [hcursor, accept_head hl]

omit hbehind hl in
theorem accept_closer_inside (hi : Open ks i []) (hlt : i < ks.length) :
    (accept ")").run (V.cursor i) = some (false, V.cursor i) := by
  refine accept_other fun hhead => hi.not_closer ?_
  rw [head_of_kind hT (List.getElem?_eq_getElem hlt)] at hhead
  rw [List.getElem?_eq_getElem hlt, hhead]

/-- Further items up to the closing parenthesis are read by either rule. -/
theorem row_of_items (hn : enough ks + 2 ≤ n) {fuel : Nat} {as : List Expr} (hi : Open ks i [])
    (h : (repeatFrom (moreRound (parseExpr (parseWithin n) .starExpression)) fuel).run (V.cursor i) =
      some (as, V.cursor ks.length)) :
    (as = [] ∧ i = ks.length) ∨
      ks[i]? = some (.symbol ",") ∧ ∀ f, ks.length - i < f →
        (repeatFrom (untilRound ")" (parseExpr (parseWithin n) .starNamed)) f).run
          (V.cursor (i + 1)) = some (as, ⟨ls, l.stop⟩) := by
  induction fuel generalizing i as with
  | zero => cases h
  | succ fuel ih =>
    have hlast : (V.cursor ks.length).rest.head?.map (·.kind) = some (.symbol ")") :=
      head_behind hT hbehind hl
    have hnil {f : Nat} (hf : 0 < f) :
        (repeatFrom (untilRound ")" (parseExpr (parseWithin n) .starNamed)) f).run
          (V.cursor ks.length) = some ([], ⟨ls, l.stop⟩) := by
      obtain ⟨f, rfl⟩ : ∃ f', f = f' + 1 := ⟨f - 1, by omega⟩
      exact repeatFrom_last (untilRound_last (accept_behind hT hbehind hl)) f
    by_cases hcomma : ks[i]? = some (.symbol ",")
    · right
      refine ⟨hcomma, fun f hf => ?_⟩
      have hlt : i < ks.length := (List.getElem?_eq_some_iff.mp hcomma).1
      have hnext : Open ks (i + 1) [] := hi.step hcomma rfl
      have halike := hT.reads hnext (g := .starExpression) (fun _ => nofun)
        (by omega : enough ks ≤ n) (by omega : enough ks ≤ n)
      have hround := moreRound_run (parseExpr (parseWithin n) .starExpression)
        (accept_inside hT hcomma)
      rw [parseExpr_run] at hround
      cases hitem : outcome (parseWithin n .starExpression) (V.cursor (i + 1)) with
      | none =>
        rw [hitem] at hround
        rw [repeatFrom_last hround] at h
        obtain ⟨rfl, hcursor⟩ : [] = as ∧ V.cursor (i + 1) = V.cursor ks.length := by
          simpa using h
        rw [hcursor]
        exact hnil (by omega)
      | some r =>
        obtain ⟨e, c⟩ := r
        obtain ⟨j, hij, hj, rfl⟩ := halike.outcome_some hitem
        rw [hitem] at hround
        rw [repeatFrom_more hround] at h
        obtain ⟨⟨as', c⟩, hrest, heq⟩ := Option.map_eq_some_iff.mp h
        cases heq
        have hcloser := accept_closer_inside hT hnext (Nat.lt_of_lt_of_le hij hj.le)
        have hnamed {k : LexemeKind} (hhead : (V.cursor j).rest.head?.map (·.kind) = some k)
            (hk : k ≠ .symbol ":=") :
            (parseExpr (parseWithin n) .starNamed).run (V.cursor (i + 1)) =
              some (e, V.cursor j) := by
          rw [parseExpr_run]
          refine starNamed_outcome hT hnext hn hitem ?_
          rw [hhead]
          exact fun heq => hk (Option.some.inj heq)
        obtain ⟨f, rfl⟩ : ∃ f', f = f' + 1 := ⟨f - 1, by omega⟩
        rcases ih hj hrest with ⟨rfl, rfl⟩ | ⟨hcomma', hrounds⟩
        · have hother : (accept ",").run (V.cursor ks.length) = some (false, V.cursor ks.length) :=
            accept_other (by rw [hlast]; exact nofun)
          rw [repeatFrom_more (untilRound_closer hcloser (hnamed hlast nofun) hother hlast),
            hnil (by omega)]
          rfl
        · rw [repeatFrom_more (untilRound_comma hcloser (hnamed (head_of_kind hT hcomma') nofun)
            (accept_inside hT hcomma')), hrounds f (by omega)]
          rfl
    · left
      have hother : (V.cursor i).rest.head?.map (·.kind) ≠ some (.symbol ",") := by
        rcases Nat.lt_or_eq_of_le hi.le with hlt | rfl
        · rw [head_of_kind hT (List.getElem?_eq_getElem hlt), ← List.getElem?_eq_getElem hlt]
          exact hcomma
        · rw [hlast]
          exact nofun
      rw [repeatFrom_last (moreRound_last hother)] at h
      obtain ⟨rfl, hcursor⟩ : [] = as ∧ V.cursor i = V.cursor ks.length := by simpa using h
      exact ⟨rfl, cursor_inj hT hi.le (Nat.le_refl _) hcursor⟩

omit hT hbehind hl in
theorem tupleRule_outcome (parse : Goal → Parser Node) (item : Goal) (c : Cursor) :
    outcome (tupleRule parse item) c = (outcome (parse item) c).bind fun r =>
      if r.2.rest.head?.map (·.kind) = some (.symbol ",") then
        ((moreItems (parseExpr parse item)).run r.2).map fun more =>
          (.display .tuple (r.1 :: more.1), more.2)
      else some r := by
  have hstart : startOffset.run c = some ((c.rest.head?.map (·.start)).getD 0, c) := rfl
  unfold outcome
  rw [tupleRule, StateT.run_bind, hstart, Option.bind_eq_bind, Option.bind_some, StateT.run_bind]
  cases (parse item).run c with
  | none => rfl
  | some r =>
    rw [Option.bind_eq_bind, Option.bind_some, StateT.run_bind, atSymbol_run, Option.map_some,
      Option.bind_some]
    by_cases hcomma : r.2.rest.head?.map (·.kind) = some (.symbol ",")
    · rw [decide_eq_true hcomma, if_pos hcomma, Option.bind_eq_bind, Option.bind_some]
      dsimp only
      rw [if_pos rfl, StateT.run_bind]
      cases (moreItems (parseExpr parse item)).run r.2 <;> rfl
    · rw [decide_eq_false hcomma, if_neg hcomma]
      rfl

omit hT hbehind hl in
theorem itemsUntil_run {α : Type} (closer : String) (item : Parser α) (c : Cursor) :
    (itemsUntil closer item).run c =
      (repeatFrom (untilRound closer item) (c.rest.length + 1)).run c := by
  have hget : (get : Parser Cursor).run c = some (c, c) := rfl
  have hrepeated : (repeated (untilRound closer item)).run c =
      (repeatFrom (untilRound closer item) (c.rest.length + 1)).run c := by
    rw [repeated, StateT.run_bind, hget]
    rfl
  exact hrepeated

/-- A row of items that reaches up to the closing parenthesis is what is read there; only a single
spread item is refused. -/
theorem parenthesized_row (hopen : Open ks 0 []) (hn : enough ks + 2 ≤ n) {m : Nat}
    (hm : enough ks ≤ m) {e : Expr}
    (h : outcome (parseWithin m .starExpressions) (V.cursor 0) = some (e, V.cursor ks.length)) :
    ((parenthesized (parseWithin n)).run (V.cursor 0)).map (fun r => (r.1.1.expr, r.2)) =
      if isStarred e then none else some (e, ⟨ls, l.stop⟩) := by
  have hlast : (V.cursor ks.length).rest.head?.map (·.kind) = some (.symbol ")") :=
    head_behind hT hbehind hl
  have hdepth := (hT.reads hopen (g := .starExpressions) (by rintro _ ⟨⟩) hm
    (by omega : enough ks ≤ n + 1)).outcome_eq
  have hfirst := hT.reads hopen (g := .starExpression) (by rintro _ ⟨⟩) (by omega : enough ks ≤ n)
    (by omega : enough ks ≤ n)
  rw [hdepth, show parseWithin (n + 1) .starExpressions = tupleRule (parseWithin n) .starExpression
    from rfl, tupleRule_outcome] at h
  obtain ⟨⟨first, c⟩, hitem, hmore⟩ := Option.bind_eq_some_iff.mp h
  obtain ⟨j, hj0, hj, rfl⟩ := hfirst.outcome_some hitem
  have hlt : 0 < ks.length := Nat.lt_of_lt_of_le hj0 hj.le
  obtain ⟨l₀, hl₀, hkind₀, hcursor₀⟩ := Window.cursor_of_kind hT.left (List.getElem?_eq_getElem hlt)
  have hyield : (atWord "yield").run (V.cursor 0) = some (false, V.cursor 0) := by
    rw [atWord_run, hcursor₀, List.head?_cons, Option.map_some, decide_eq_false]
    intro heq
    obtain ⟨k, hk⟩ := expression_of_yield (V.cursor (0 + 1)).rest (V.stop 0)
      (Option.some.inj heq)
    have hdeep := (hT.reads hopen (g := .expression) (by rintro _ ⟨⟩)
      (by omega : enough ks ≤ n - 1) (by omega : enough ks ≤ max k (n - 1))).outcome_eq
    rw [show n = n - 1 + 1 by omega, show parseWithin (n - 1 + 1) .starExpression =
      starRule (parseWithin (n - 1)) .expression from rfl, starRule_outcome, if_neg, hdeep,
      hcursor₀, hk _ (Nat.le_max_left _ _)] at hitem
    · cases hitem
    · rw [hcursor₀, List.head?_cons, Option.map_some, heq]
      rintro ⟨⟩
  have hnamed {k : LexemeKind} (hhead : (V.cursor j).rest.head?.map (·.kind) = some k)
      (hk : k ≠ .symbol ":=") : ∃ x, (parseWithin n .starNamed).run (V.cursor 0) =
        some (x, V.cursor j) ∧ x.expr = first := by
    have hread := starNamed_outcome hT hopen hn hitem fun heq => hk (by
      rw [hhead] at heq
      exact Option.some.inj heq)
    obtain ⟨⟨x, c⟩, hrun, heq⟩ := Option.map_eq_some_iff.mp hread
    cases heq
    exact ⟨x, hrun, rfl⟩
  rw [parenthesized, StateT.run_bind, accept_closer_inside hT hopen hlt,
    Option.bind_eq_bind, Option.bind_some]
  dsimp only
  rw [if_neg Bool.false_ne_true, StateT.run_bind, hyield, Option.bind_eq_bind, Option.bind_some]
  dsimp only
  rw [if_neg Bool.false_ne_true, StateT.run_bind]
  dsimp only at hmore
  split at hmore
  · rename_i hcomma
    obtain ⟨⟨more, c⟩, hrest, heq⟩ := Option.map_eq_some_iff.mp hmore
    cases heq
    obtain ⟨x, hrun, rfl⟩ := hnamed hcomma (by simp)
    rcases row_of_items hT hbehind hl hn hj hrest with ⟨-, rfl⟩ | ⟨hkind, hrounds⟩
    · exact absurd (hlast.symm.trans hcomma) (by simp)
    · have hitems : (itemsUntil ")" (parseExpr (parseWithin n) .starNamed)).run (V.cursor (j + 1)) =
          some (more, ⟨ls, l.stop⟩) := by
        rw [itemsUntil_run, hrounds]
        simp only [Window.cursor, List.length_append, List.length_drop,
          Window.length_kinds hT.left, hbehind, List.length_cons]
        omega
      rw [hrun, Option.bind_eq_bind, Option.bind_some, StateT.run_bind, accept_inside hT hkind,
        Option.bind_eq_bind, Option.bind_some]
      dsimp only
      rw [if_pos rfl, StateT.run_bind, hitems]
      rfl
  · rename_i hcomma
    obtain ⟨rfl, hcursor⟩ := Prod.mk.inj (Option.some.inj hmore)
    obtain rfl := cursor_inj hT hj.le (Nat.le_refl _) hcursor
    obtain ⟨x, hrun, rfl⟩ := hnamed hlast (by simp)
    have hclause : atClause.run (V.cursor ks.length) = some (false, V.cursor ks.length) := by
      have hword (s : String) : (atWord s).run (V.cursor ks.length) =
          some (false, V.cursor ks.length) := by
        rw [atWord_run, hlast]
        rfl
      rw [atClause, StateT.run_bind, hword, Option.bind_eq_bind, Option.bind_some, StateT.run_bind,
        hword]
      rfl
    have hexpect : (expect ")").run (V.cursor ks.length) = some ((), ⟨ls, l.stop⟩) := by
      rw [expect, StateT.run_bind, accept_behind hT hbehind hl]
      rfl
    rw [hrun, Option.bind_eq_bind, Option.bind_some, StateT.run_bind, accept_other hcomma,
      Option.bind_eq_bind, Option.bind_some]
    dsimp only
    rw [if_neg Bool.false_ne_true, StateT.run_bind, hclause, Option.bind_eq_bind, Option.bind_some]
    dsimp only
    rw [if_neg Bool.false_ne_true, StateT.run_bind, hexpect, Option.bind_eq_bind, Option.bind_some]
    cases isStarred x.expr <;> rfl

end

end Stencil.Grammar
