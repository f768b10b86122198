import Stencil.Proofs.Phrases

/-!
# What parentheses group

Parentheses that only group belong to no expression, so the text of what they group is read again
without them. It is a phrase in a single pair of parentheses, however many stood around it.
-/

namespace Stencil.Grammar

open Stencil.Expr (Lexeme LexemeKind lexemes?)
open Stencil.Grammar.Parser

/-- A lexeme closes a bracket that was open before some others, or it changes the others only. -/
theorem shift_cases {r p next : List Char} {c : Char} {k : LexemeKind}
    (h : shift (r ++ c :: p) k = some next) :
    (r = [] ∧ next = p) ∨ ∃ r', shift r k = some r' ∧ next = r' ++ c :: p := by
  have hclosed {d : Char} (h : (if (r ++ c :: p).head? = some d then some (r ++ c :: p).tail
      else none) = some next) : (r = [] ∧ next = p) ∨
        ∃ r', (if r.head? = some d then some r.tail else none) = some r' ∧ next = r' ++ c :: p := by
    split at h
    · rename_i hhead
      cases h
      cases r with
      | nil => exact .inl ⟨rfl, rfl⟩
      | cons d' r =>
        cases hhead
        exact .inr ⟨r, if_pos rfl, rfl⟩
    · cases h
  unfold shift at h ⊢
  split at h
  · cases h
    exact .inr ⟨_, rfl, rfl⟩
  · cases h
    exact .inr ⟨_, rfl, rfl⟩
  · cases h
    exact .inr ⟨_, rfl, rfl⟩
  · exact hclosed h
  · exact hclosed h
  · exact hclosed h
  · cases h
    exact .inr ⟨r, rfl, rfl⟩

/-- Up to the bracket that closes the innermost open one, all brackets are closed. -/
theorem closed_before {ks : List LexemeKind} {r p : List Char} {c : Char}
    (h : ks.foldlM shift (r ++ c :: p) = some []) :
    ∃ A k B, ks = A ++ k :: B ∧ A.foldlM shift r = some [] ∧ shift (c :: p) k = some p := by
  induction ks generalizing r with
  | nil =>
    have hnil : r ++ c :: p = [] := Option.some.inj h
    simp at hnil
  | cons k ks ih =>
    rw [List.foldlM_cons] at h
    obtain ⟨next, hshift, hrest⟩ := Option.bind_eq_some_iff.mp h
    rcases shift_cases hshift with ⟨rfl, rfl⟩ | ⟨r', hr', rfl⟩
    · exact ⟨[], k, ks, rfl, rfl, hshift⟩
    · obtain ⟨A, k', B, rfl, hA, hk'⟩ := ih hrest
      refine ⟨k :: A, k', B, rfl, ?_, hk'⟩
      rw [List.foldlM_cons, hr']
      exact hA

theorem kind_of_close {p : List Char} {k : LexemeKind} (h : shift (')' :: p) k = some p) :
    k = .symbol ")" := by
  unfold shift at h
  have hlength := congrArg (Option.map List.length) h
  split at hlength <;> first | rfl | (simp at hlength <;> omega)

section

variable {V : Window} {ks : List LexemeKind} {m x y j q : Nat} {p : List Char}

/-- The innermost open parenthesis is closed behind lexemes that close all of theirs. -/
theorem Open.closing (h : Open ks x (')' :: p)) :
    ∃ q, x ≤ q ∧ ks[q]? = some (.symbol ")") ∧ Open ((ks.drop x).take (q - x)) 0 [] := by
  have hclosed : (ks.drop x).foldlM shift ([] ++ ')' :: p) = some [] := h.closed
  obtain ⟨A, k, B, hks, hA, hk⟩ := closed_before hclosed
  obtain rfl := kind_of_close hk
  refine ⟨x + A.length, Nat.le_add_right x _, ?_, Nat.zero_le _, ?_⟩
  · rw [← List.getElem?_drop, hks, List.getElem?_append_right (Nat.le_refl _), Nat.sub_self]
    rfl
  · rw [Nat.add_sub_cancel_left, hks, List.take_left, List.drop_zero]
    exact hA

variable (hV : V.kinds = ks) (hq : ks[q]? = some (.symbol ")"))

include hV hq

theorem part_twins : Twins false ((ks.drop x).take (q - x)) (V.part x q) (V.part x q) := by
  have hkinds : (V.part x q).kinds = (ks.drop x).take (q - x) := by
    rw [← hV, Window.kinds, Window.kinds, Window.part, List.map_take, List.map_drop]
  have hends : Ends false (V.part x q).behind := by
    obtain ⟨l, -, hl, hcursor⟩ := Window.cursor_of_kind hV hq
    rw [Window.part, hcursor]
    exact .closer hl
  exact ⟨hkinds, hkinds, hends, hends⟩

/-- A goal that is read up to a closing parenthesis is read up to the one of the innermost open
parenthesis. -/
theorem read_to_closing (hxq : x ≤ q) (hV' : Twins true ks V V) (hxy : x ≤ y) (hyq : y ≤ q)
    (hy : Open ((ks.drop x).take (q - x)) (y - x) []) (hm : 32 * load (ks.drop x) + 33 ≤ m) {g : Goal}
    {node : Node} (hj : j ≤ ks.length) (hjk : ks[j]? = some (.symbol ")"))
    (h : (parseWithin m g).run (V.cursor y) = some (node, V.cursor j)) : j = q := by
  have hU := part_twins (x := x) hV hq
  have hload : load (((ks.drop x).take (q - x)).drop (y - x)) ≤ load (ks.drop x) :=
    Nat.le_trans (load_drop_le _ (Nat.zero_le _)) (load_take_le _ _)
  have hrank := rank_lt g
  have hpart : ((ks.drop x).take (q - x)).length = q - x := by
    have hlt := (List.getElem?_eq_some_iff.mp hq).1
    rw [List.length_take, List.length_drop]
    omega
  have hcursor : (V.part x q).cursor (y - x) = V.cursor y := by
    rw [Window.part_cursor hxq (by omega), show x + (y - x) = y by omega]
  have halike := parseWithin_alike hU hy (g := g) (fun _ => nofun) (by omega : _ < m)
    (by omega : _ < m)
  rw [← hcursor] at h
  rcases halike with ⟨hnone, -⟩ | ⟨a, b, k, hl, -, hread⟩
  · rw [hnone] at h
    cases h
  · rw [hl] at h
    have hk := hread.opened.le
    rw [hpart] at hk
    obtain ⟨-, hend⟩ := Prod.mk.inj (Option.some.inj h)
    rw [Window.part_cursor hxq (by omega)] at hend
    have hjk' : x + k = j := cursor_inj hV' (by
      have hlt := (List.getElem?_eq_some_iff.mp hq).1
      omega) hj hend
    refine Nat.le_antisymm (by omega) (Nat.le_of_not_lt fun hlt => hread.opened.not_closer ?_)
    rw [List.getElem?_take, if_pos (by omega), List.getElem?_drop, hjk', hjk]

end

section

variable {parse : Goal → Parser Node} {c c' : Cursor} {x : Node}

theorem spanned_eq_some {p : Parser Expr} (h : (spanned p).run c = some (x, c')) :
    p.run c = some (x.expr, c') := by
  have hstart : startOffset.run c = some ((c.rest.head?.map (·.start)).getD 0, c) := rfl
  rw [spanned, StateT.run_bind, hstart, Option.bind_eq_bind, Option.bind_some] at h
  obtain ⟨e, c₁, hrun, h⟩ := bind_eq_some h
  obtain ⟨d, c₂, hget, h⟩ := bind_eq_some h
  cases hget
  cases h
  exact hrun

theorem accept_false {s : String} (h : (accept s).run c = some (false, c')) : c = c' := by
  obtain ⟨b, c₁, hat, h⟩ := bind_eq_some h
  rw [atSymbol_run] at hat
  obtain ⟨rfl, rfl⟩ := Prod.mk.inj (Option.some.inj hat)
  split at h
  · obtain ⟨k, c₂, -, h⟩ := bind_eq_some h
    cases h
  · cases h
    rfl

theorem atClause_place {b : Bool} (h : atClause.run c = some (b, c')) : c = c' := by
  obtain ⟨b₁, c₁, hat, h⟩ := bind_eq_some h
  obtain ⟨b₂, c₂, hat', h⟩ := bind_eq_some h
  rw [atWord_run] at hat hat'
  cases hat
  cases hat'
  cases h
  rfl

theorem wrapped_ne {e : Expr}
    (h : (do return (Node.of e 0 (← MonadState.get).stop, false) : Parser (Node × Bool)).run c =
      some ((x, true), c')) : False := by
  obtain ⟨d, c₁, -, h⟩ := bind_eq_some h
  cases h

/-- Parentheses group what is read between them as one item, or as something to be yielded. -/
theorem parenthesized_grouped (h : (parenthesized parse).run c = some ((x, true), c')) :
    ∃ c₁, (expect ")").run c₁ = some ((), c') ∧
      ((parse .starNamed).run c = some (x, c₁) ∨
        c.rest.head?.map (·.kind) = some (.name "yield") ∧
          ∃ k c₀, next.run c = some (k, c₀) ∧ (yieldRule parse).run c₀ = some (x.expr, c₁)) := by
  obtain ⟨b, c₀, haccept, h⟩ := bind_eq_some h
  cases b with
  | true => exact (wrapped_ne h).elim
  | false =>
    obtain rfl := accept_false haccept
    rw [if_neg Bool.false_ne_true] at h
    obtain ⟨b, c₁, hyield, h⟩ := bind_eq_some h
    rw [atWord_run] at hyield
    obtain ⟨rfl, rfl⟩ := Prod.mk.inj (Option.some.inj hyield)
    split at h
    · rename_i hword
      obtain ⟨node, c₁, hnode, h⟩ := bind_eq_some h
      obtain ⟨_, c₂, hexpect, h⟩ := bind_eq_some h
      cases h
      obtain ⟨k, c₃, hnext, hrule⟩ := bind_eq_some (spanned_eq_some hnode)
      exact ⟨c₁, hexpect, .inr ⟨of_decide_eq_true hword, k, c₃, hnext, hrule⟩⟩
    · obtain ⟨first, c₁, hfirst, h⟩ := bind_eq_some h
      obtain ⟨b, c₂, hcomma, h⟩ := bind_eq_some h
      cases b with
      | true =>
        obtain ⟨rest, c₃, -, h⟩ := bind_eq_some h
        exact (wrapped_ne h).elim
      | false =>
        obtain rfl := accept_false hcomma
        rw [if_neg Bool.false_ne_true] at h
        obtain ⟨b, c₃, hclause, h⟩ := bind_eq_some h
        obtain rfl := atClause_place hclause
        cases b with
        | true =>
          dsimp only at h
          rw [if_pos rfl] at h
          split at h
          · cases h
          · obtain ⟨cs, c₄, -, h⟩ := bind_eq_some h
            obtain ⟨_, c₅, -, h⟩ := bind_eq_some h
            exact (wrapped_ne h).elim
        | false =>
          rw [if_neg Bool.false_ne_true] at h
          obtain ⟨_, c₄, hexpect, h⟩ := bind_eq_some h
          split at h
          · cases h
          · cases h
            exact ⟨_, hexpect, .inl hfirst⟩

end

section

variable {ls : List Lexeme} {i j m q x : Nat} {p : List Char}

theorem alone_twins (targets : Bool) : Twins targets (ls.map (·.kind)) (alone ls) (alone ls) :=
  ⟨rfl, rfl, .nothing, .nothing⟩

theorem cursor_alone_inj {i j : Nat} (hi : i ≤ ls.length) (hj : j ≤ ls.length)
    (h : (alone ls).cursor i = (alone ls).cursor j) : i = j :=
  cursor_inj (alone_twins true) (by rwa [List.length_map]) (by rwa [List.length_map]) h

/-- What was read in front of a closing parenthesis ends in front of the innermost one. -/
theorem goal_to_closing {y : Nat} {g : Goal} {node : Node} {c : Cursor}
    (hq : (ls.map (·.kind))[q]? = some (.symbol ")")) (hxq : x ≤ q) (hxy : x ≤ y) (hyq : y ≤ q)
    (hy : Open (((ls.map (·.kind)).drop x).take (q - x)) (y - x) [])
    (hyp : Open (ls.map (·.kind)) y (')' :: p))
    (hm : 32 * load ((ls.map (·.kind)).drop x) + 33 ≤ m)
    (h : (parseWithin m g).run ((alone ls).cursor y) = some (node, c))
    (hexpect : (expect ")").run c = some ((), (alone ls).cursor (j + 1))) (hj : j < ls.length) :
    x < j ∧ j = q := by
  have hload : load ((ls.map (·.kind)).drop y) ≤ load ((ls.map (·.kind)).drop x) :=
    load_drop_le _ hxy
  have hrank := rank_lt g
  rcases parseWithin_alike (alone_twins false) hyp (g := g) nofun (by omega : _ < m)
    (by omega : _ < m) with ⟨hnone, -⟩ | ⟨a, b, k, hl, -, hread⟩
  · rw [hnone] at h
    cases h
  · rw [hl] at h
    obtain ⟨-, rfl⟩ := Prod.mk.inj (Option.some.inj h)
    obtain ⟨hkind, hend⟩ := expect_alone hexpect
    have hk := (List.getElem?_eq_some_iff.mp hkind).1
    rw [List.length_map] at hk
    have hjk : j + 1 = k + 1 := cursor_alone_inj hj hk hend
    obtain rfl : j = k := by omega
    have hjle : j ≤ (ls.map (·.kind)).length := Nat.le_of_lt (by rwa [List.length_map])
    exact ⟨Nat.lt_of_le_of_lt hxy hread.lt,
      read_to_closing (V := alone ls) rfl hq hxq (alone_twins true) hxy hyq hy hm hjle hkind hl⟩

theorem parenthesized_closing {node : Node} (hx : Open (ls.map (·.kind)) x (')' :: p))
    (hm : 32 * load ((ls.map (·.kind)).drop x) + 33 ≤ m) (hj : j < ls.length)
    (h : (parenthesized (parseWithin m)).run ((alone ls).cursor x) =
      some ((node, true), (alone ls).cursor (j + 1))) :
    x < j ∧ Open (((ls.map (·.kind)).drop x).take (j - x)) 0 [] := by
  obtain ⟨q, hxq, hq, hclosed⟩ := hx.closing
  suffices hjq : x < j ∧ j = q by
    obtain ⟨hxj, rfl⟩ := hjq
    exact ⟨hxj, hclosed⟩
  obtain ⟨c, hexpect, hread | ⟨hyield, k, c₀, hnext, hrule⟩⟩ := parenthesized_grouped h
  · exact goal_to_closing hq hxq (Nat.le_refl x) hxq (by rwa [Nat.sub_self]) hx hm hread hexpect hj
  · obtain ⟨hk, rfl⟩ := next_alone hnext
    have hword : (ls.map (·.kind))[x]? = some (.name "yield") :=
      (Window.kindAt_of_kind (V := alone ls) rfl hk).symm.trans hyield ▸ hk
    have hxq' : x < q := by
      refine Nat.lt_of_le_of_ne hxq fun heq => ?_
      rw [← heq, hword] at hq
      cases hq
    have hinside {i : Nat} (hi : x + i < q) : (((ls.map (·.kind)).drop x).take (q - x))[i]? =
        (ls.map (·.kind))[x + i]? := by
      rw [List.getElem?_take, if_pos (by omega), List.getElem?_drop]
    have hclosed₁ : Open (((ls.map (·.kind)).drop x).take (q - x)) 1 [] :=
      hclosed.step (k := .name "yield") (by rw [hinside (by omega)]; exact hword) rfl
    have hx₁ : Open (ls.map (·.kind)) (x + 1) (')' :: p) := hx.step hword rfl
    obtain ⟨b, c₁, hfrom, hrule⟩ := bind_eq_some hrule
    rcases acceptWord_alone hfrom with ⟨rfl, hk', rfl⟩ | ⟨rfl, rfl⟩
    · have hxq'' : x + 1 < q := by
        refine Nat.lt_of_le_of_ne hxq' fun heq => ?_
        rw [← heq, hk'] at hq
        cases hq
      have hclosed₂ : Open (((ls.map (·.kind)).drop x).take (q - x)) 2 [] :=
        hclosed₁.step (k := .name "from") (by rw [hinside hxq'']; exact hk') rfl
      obtain ⟨e, c₂, hexpr, hrule⟩ := bind_eq_some hrule
      obtain ⟨-, rfl⟩ := Prod.mk.inj (Option.some.inj hrule)
      rw [parseExpr_run] at hexpr
      obtain ⟨node', hread, -⟩ := outcome_eq_some.mp hexpr
      exact goal_to_closing hq hxq (by omega) (by omega : x + 1 + 1 ≤ q)
        (by rwa [show x + 1 + 1 - x = 2 by omega]) (hx₁.step hk' rfl) hm hread hexpect hj
    · rw [if_neg Bool.false_ne_true] at hrule
      obtain ⟨b, c₂, hat, hrule⟩ := bind_eq_some hrule
      rw [atSymbol_run] at hat
      obtain ⟨rfl, rfl⟩ := Prod.mk.inj (Option.some.inj hat)
      split at hrule
      · obtain ⟨-, rfl⟩ := Prod.mk.inj (Option.some.inj hrule)
        obtain ⟨hkind, hend⟩ := expect_alone hexpect
        have hlt := (List.getElem?_eq_some_iff.mp hkind).1
        rw [List.length_map] at hlt
        have hjx := cursor_alone_inj (by omega) (by omega) hend
        obtain rfl : j = x + 1 := by omega
        refine ⟨Nat.lt_succ_self x,
          Nat.le_antisymm hxq' (Nat.le_of_not_lt fun hlt => hclosed₁.not_closer ?_)⟩
        rw [hinside hlt]
        exact hkind
      · obtain ⟨e, c₃, hexpr, hrule⟩ := bind_eq_some hrule
        obtain ⟨-, rfl⟩ := Prod.mk.inj (Option.some.inj hrule)
        rw [parseExpr_run] at hexpr
        obtain ⟨node', hread, -⟩ := outcome_eq_some.mp hexpr
        exact goal_to_closing hq hxq (by omega) (by omega : x + 1 ≤ q)
          (by rwa [Nat.add_sub_cancel_left]) hx₁ hm hread hexpect hj

def inParentheses (ks : List LexemeKind) : List LexemeKind :=
  .symbol "(" :: ks ++ [.symbol ")"]

theorem Open.inParentheses {ks : List LexemeKind} (h : Open ks 0 []) :
    Open (inParentheses ks) 0 [] := by
  refine ⟨Nat.zero_le _, ?_⟩
  have hclosed := foldlM_shift_append [')'] h.closed
  rw [List.drop_zero, List.nil_append] at hclosed
  rw [List.drop_zero, Grammar.inParentheses, List.cons_append, List.foldlM_cons]
  change List.foldlM shift [')'] (ks ++ [.symbol ")"]) = some []
  rw [List.foldlM_append, hclosed]
  rfl

theorem take_to_close {ks : List LexemeKind} (hj : ks[j]? = some (.symbol ")")) (hij : i ≤ j) :
    (ks.drop i).take (j - i + 1) = (ks.drop i).take (j - i) ++ [.symbol ")"] := by
  obtain ⟨hj, hkj⟩ := List.getElem?_eq_some_iff.mp hj
  rw [List.take_succ_eq_append_getElem (by rw [List.length_drop]; omega), List.getElem_drop]
  congr 2
  rw [← hkj]
  congr 1
  omega

theorem slice_of_parentheses {ks : List LexemeKind} (hi : ks[i]? = some (.symbol "("))
    (hj : ks[j]? = some (.symbol ")")) (hij : i + 1 ≤ j) :
    (ks.drop i).take (j + 1 - i) = inParentheses ((ks.drop (i + 1)).take (j - (i + 1))) := by
  obtain ⟨hi, hki⟩ := List.getElem?_eq_some_iff.mp hi
  rw [List.drop_eq_getElem_cons hi, hki, show j + 1 - i = j - (i + 1) + 1 + 1 by omega,
    List.take_succ_cons, take_to_close hj hij]
  rfl

/-- Something is grouped, and it stands between its parentheses. -/
theorem Grouped.bounds {e : Expr} {i' j' : Nat} (h : Grouped (alone ls) e i i' j' j)
    (hij : i' = i → i < j) :
    i ≤ i' ∧ i' < j' ∧ j' ≤ j := by
  induction h with
  | whole => exact ⟨Nat.le_refl _, hij rfl, Nat.le_refl _⟩
  | @inside i j m node hopen hclose hinside hm hread he =>
    obtain ⟨p, hx, -⟩ := hinside
    have hj : j < ls.length := by
      have hlt := (List.getElem?_eq_some_iff.mp hclose).1
      rwa [Window.kinds, List.length_map] at hlt
    obtain ⟨hlt, -⟩ := parenthesized_closing hx hm hj hread
    exact ⟨Nat.le_succ i, hlt, Nat.le_succ j⟩
  | @deeper i i' j' j hopen hclose hlt h ih =>
    obtain ⟨hi, hlt', hj⟩ := ih fun heq => by omega
    exact ⟨by omega, hlt', by omega⟩

/-- What is grouped is a phrase in the innermost parentheses around it. -/
theorem Grouped.phrase {e : Expr} {i' j' : Nat} (h : Grouped (alone ls) e i i' j' j)
    (hends : Ends false ((alone ls).cursor j).rest) :
    i' = i ∧ j' = j ∨ Open (((ls.map (·.kind)).drop i').take (j' - i')) 0 [] ∧
      Phrase false (inParentheses (((ls.map (·.kind)).drop i').take (j' - i'))) .atom e := by
  induction h with
  | whole => exact .inl ⟨rfl, rfl⟩
  | @inside i j m node hopen hclose hinside hm hread he =>
    right
    obtain ⟨p, hx, -⟩ := hinside
    have hj : j < ls.length := by
      have hlt := (List.getElem?_eq_some_iff.mp hclose).1
      rwa [Window.kinds, List.length_map] at hlt
    obtain ⟨hlt, hclosed⟩ := parenthesized_closing hx hm hj hread
    have hij := Nat.le_of_lt hlt
    have hslice : ((ls.map (·.kind)).drop i).take (j + 1 - i) =
        inParentheses (((ls.map (·.kind)).drop (i + 1)).take (j - (i + 1))) :=
      slice_of_parentheses hopen hclose hij
    have hkinds : ((alone ls).part i (j + 1)).kinds =
        inParentheses (((ls.map (·.kind)).drop (i + 1)).take (j - (i + 1))) := by
      rw [← hslice, Window.kinds, Window.part, List.map_take, List.map_drop]
      rfl
    have hlength : (inParentheses (((ls.map (·.kind)).drop (i + 1)).take (j - (i + 1)))).length =
        j + 1 - i := by
      rw [← hslice, List.length_take, List.length_drop, List.length_map]
      omega
    refine ⟨hclosed, .of_window (n := m + 1) hkinds hends hclosed.inParentheses (by rintro ⟨⟩) ?_ ?_⟩
    · have hload : load (((ls.map (·.kind)).drop (i + 1)).take (j - (i + 1)) ++ [.symbol ")"]) ≤
          load ((alone ls).kinds.drop (i + 1)) :=
        Nat.le_trans (Nat.le_of_eq (congrArg load (take_to_close hclose hij).symm))
          (load_take_le _ _)
      have hrank : rank .atom = 1 := rfl
      have hweight : weight (.symbol "(") = 1 := rfl
      rw [inParentheses, List.cons_append, load, hrank, hweight]
      omega
    · rw [hlength, Window.part_cursor (by omega) (by omega),
        Window.part_cursor (by omega) (by omega), show i + (j + 1 - i) = j + 1 by omega]
      change outcome _ ((alone ls).cursor i) = _
      obtain ⟨l, hget, hl, hcursor⟩ := Window.cursor_of_kind (V := alone ls) rfl hopen
      have hnext : (alone ls).cursor (i + 1) = ⟨((alone ls).cursor (i + 1)).rest, l.stop⟩ := by
        rw [Window.cursor, Window.stop, hget]
        rfl
      rw [hnext] at hread
      refine outcome_eq_some.mpr ⟨node, ?_, he⟩
      rw [hcursor, show parseWithin (m + 1) .atom = atomRule (parseWithin m) from rfl,
        atomRule_group hl, StateT.run_bind, hread]
      rfl
  | @deeper i i' j' j hopen hclose hlt h ih =>
    obtain ⟨l, -, hl, hcursor⟩ := Window.cursor_of_kind (V := alone ls) rfl hclose
    rcases ih (by rw [hcursor]; exact .closer hl) with ⟨rfl, -⟩ | hphrase
    · omega
    · exact .inr hphrase

end

section

variable {text : List Char} {ls : List Lexeme} {g : Goal} {ks : List LexemeKind} {e : Expr}

theorem readAll_of_always {o : Option (Expr × Cursor)} (hls : lexemes? text = some ls)
    (h : Always g ⟨ls, 0⟩ o) : (readAll text fun parse => parse g).map (·.expr) =
      o.bind fun r => if r.2.rest = [] then some r.1 else none := by
  obtain ⟨hopen, -⟩ := lexemes?_open hls
  obtain ⟨m, hm⟩ := h
  have hdeep := enough_le_depthFor hls
  have hsame := ((alone_twins false).reads hopen (g := g) (fun _ => nofun) hdeep
    (by omega : enough (ls.map (·.kind)) ≤ max m (depthFor text.length))).outcome_eq
  rw [alone_cursor, hm _ (Nat.le_max_left _ _)] at hsame
  rw [← hsame]
  unfold readAll outcome
  rw [hls]
  dsimp only
  cases (parseWithin (depthFor text.length) g).run ⟨ls, 0⟩ with
  | none => rfl
  | some r =>
    obtain ⟨x, rest, stop⟩ := r
    cases rest <;> rfl

theorem alone_end : ((alone ls).cursor (ls.map (·.kind)).length).rest = [] := by
  rw [alone_rest, List.length_map, List.drop_length]

theorem head_of_inParentheses (hks : ls.map (·.kind) = inParentheses ks) :
    ∃ l ls', ls = l :: ls' ∧ l.kind = .symbol "(" ∧ ls'.map (·.kind) = ks ++ [.symbol ")"] := by
  cases ls with
  | nil => cases hks
  | cons l ls' =>
    obtain ⟨hl, hls'⟩ := List.cons.inj hks
    exact ⟨l, ls', rfl, hl, hls'⟩

/-- A group that is read as one is read as the expression that it groups. -/
theorem readAll_group (hls : lexemes? text = some ls) (hks : ls.map (·.kind) = inParentheses ks)
    (h : Phrase false (inParentheses ks) .atom e) :
    (readAll text fun parse => parse .expressions).map (·.expr) = some e := by
  obtain ⟨l, ls', rfl, hl, -⟩ := head_of_inParentheses hks
  have hrest : ((alone (l :: ls')).cursor (inParentheses ks).length).rest = [] := by
    rw [← hks]
    exact alone_end
  have hatom : Always .atom ⟨l :: ls', 0⟩
      (some (e, (alone (l :: ls')).cursor (inParentheses ks).length)) := by
    refine ⟨enough (inParentheses ks), fun n hn => ?_⟩
    rw [← alone_cursor]
    exact h.read (alone (l :: ls')) n hks .nothing hn
  have hfinal : Final (some (e, (alone (l :: ls')).cursor (inParentheses ks).length)) := by
    intro r hr
    obtain rfl := Option.some.inj hr
    rw [hrest]
    exact .nothing
  have hother {t : String} : l.kind ≠ .name t := by
    rw [hl]
    exact nofun
  have hexpression := hatom.expression (hl ▸ .group) hfinal hother hother hother
  rw [readAll_of_always hls (hexpression.step fun _ => tuple_passes hfinal rfl), Option.bind_some,
    if_pos hrest]

/-- A row of items is read between parentheses as it is alone. -/
theorem readAll_row (hls : lexemes? text = some ls) (hks : ls.map (·.kind) = inParentheses ks)
    (h : Phrase false ks .starExpressions e) :
    (readAll text fun parse => parse .expressions).map (·.expr) =
      if isStarred e then none else some e := by
  obtain ⟨l, ls', rfl, hl, hls'⟩ := head_of_inParentheses hks
  obtain ⟨inner, l', rfl, hinner, hl'⟩ : ∃ inner l', ls' = inner ++ [l'] ∧
      inner.map (·.kind) = ks ∧ l'.kind = .symbol ")" := by
    obtain ⟨inner, last, rfl, hinner, hlast⟩ := List.map_eq_append_iff.mp hls'
    obtain ⟨l', rfl, hl'⟩ := List.map_eq_singleton_iff.mp hlast
    exact ⟨inner, l', rfl, hinner, hl'⟩
  have hT : Twins false ks ⟨inner, [l'], l.stop⟩ ⟨inner, [l'], l.stop⟩ :=
    ⟨hinner, hinner, .closer hl', .closer hl'⟩
  have hrow (n : Nat) (hn : enough ks + 2 ≤ n) :
      ((parenthesized (parseWithin n)).run ⟨inner ++ [l'], l.stop⟩).map
        (fun r => (r.1.1.expr, r.2)) = if isStarred e then none else some (e, ⟨[], l'.stop⟩) :=
    parenthesized_row hT rfl hl' h.closed hn (Nat.le_refl _)
      (h.read ⟨inner, [l'], l.stop⟩ _ hinner (.closer hl') (Nat.le_refl _))
  have hfinal : Final (if isStarred e then none else some (e, ⟨[], l'.stop⟩)) := by
    intro r hr
    split at hr
    · cases hr
    · cases hr
      exact .nothing
  rw [readAll_of_always hls (expressions_of_group hl hfinal ⟨enough ks + 2, hrow⟩)]
  cases isStarred e <;> rfl

end

end Stencil.Grammar
