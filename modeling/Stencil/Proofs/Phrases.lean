import Stencil.Expr.Reading
import Stencil.Proofs.Grouping

/-!
# Phrases

A phrase is a row of lexemes that a goal reads as a whole, up to what ends an expression. What it is
read as depends neither on what stands around it nor on the places of its lexemes, so a phrase of a
longer text has the same meaning as a text of its own, and in parentheses.
-/

namespace Stencil.Grammar

open Stencil.Expr (Lexeme LexemeKind lexemes?)
open Stencil.Grammar.Parser

/-- The goal reads these lexemes as `e` wherever they stand. -/
structure Phrase (targets : Bool) (ks : List LexemeKind) (g : Goal) (e : Expr) : Prop where
  closed : Open ks 0 []
  read : ∀ (V : Window) (n : Nat), V.kinds = ks → Ends targets V.behind → enough ks ≤ n →
    outcome (parseWithin n g) (V.cursor 0) = some (e, V.cursor ks.length)

section

variable {targets : Bool} {ks : List LexemeKind} {g : Goal} {e e' : Expr}

theorem outcome_eq_some {p : Parser Node} {c c' : Cursor} {e : Expr} :
    outcome p c = some (e, c') ↔ ∃ x, p.run c = some (x, c') ∧ x.expr = e := by
  unfold outcome
  constructor
  · intro h
    obtain ⟨⟨x, c'⟩, hrun, heq⟩ := Option.map_eq_some_iff.mp h
    cases heq
    exact ⟨x, hrun, rfl⟩
  · rintro ⟨x, hrun, rfl⟩
    rw [hrun]
    rfl

theorem Phrase.of_window {V : Window} {n : Nat} (hV : V.kinds = ks) (hends : Ends targets V.behind)
    (hopen : Open ks 0 []) (hg : Allowed targets g) (hn : 32 * load ks + rank g < n)
    (h : outcome (parseWithin n g) (V.cursor 0) = some (e, V.cursor ks.length)) :
    Phrase targets ks g e := by
  refine ⟨hopen, fun W m hW hends' hm => ?_⟩
  have hT : Twins targets ks V W := ⟨hV, hW, hends, hends'⟩
  have hrank := rank_lt g
  obtain ⟨x, hrun, rfl⟩ := outcome_eq_some.mp h
  unfold enough at hm
  rcases parseWithin_alike hT hopen (fun _ => hg) (by rwa [List.drop_zero])
    (by rw [List.drop_zero]; omega : _ < m) with ⟨hnone, -⟩ | ⟨x', y, j, hl, hr, hread⟩
  · rw [hnone] at hrun
    cases hrun
  · rw [hl] at hrun
    obtain ⟨rfl, hcursor⟩ := Prod.mk.inj (Option.some.inj hrun)
    have hself : Twins targets ks V V := ⟨hV, hV, hends, hends⟩
    obtain rfl := cursor_inj hself hread.opened.le (Nat.le_refl _) hcursor
    exact outcome_eq_some.mpr ⟨y, hr, hread.expr.symm⟩

theorem rank_lt_of_enough {n : Nat} (g : Goal) (hn : enough ks ≤ n) : 32 * load ks + rank g < n := by
  have hrank := rank_lt g
  unfold enough at hn
  omega

def alone (ls : List Lexeme) : Window := ⟨ls, [], 0⟩

theorem alone_cursor (ls : List Lexeme) : (alone ls).cursor 0 = ⟨ls, 0⟩ := by
  rw [alone, Window.cursor, List.drop_zero, List.append_nil]
  rfl

theorem alone_rest {ls : List Lexeme} {i : Nat} : ((alone ls).cursor i).rest = ls.drop i := by
  rw [alone, Window.cursor, List.append_nil]

theorem enough_le_depthFor {text : List Char} {ls : List Lexeme} (h : lexemes? text = some ls) :
    enough (ls.map (·.kind)) ≤ depthFor text.length := by
  obtain ⟨-, hload⟩ := lexemes?_open h
  unfold enough depthFor
  omega

theorem Phrase.readAll {text : List Char} {ls : List Lexeme} (h : Phrase targets ks g e)
    (hls : lexemes? text = some ls) (hks : ls.map (·.kind) = ks) :
    (readAll text fun parse => parse g).map (·.expr) = some e := by
  subst hks
  have hread := h.read (alone ls) _ rfl .nothing (enough_le_depthFor hls)
  obtain ⟨x, hrun, rfl⟩ := outcome_eq_some.mp hread
  have hrest : ((alone ls).cursor (ls.map (·.kind)).length).rest = [] := by
    rw [alone_rest, List.length_map, List.drop_length]
  rw [alone_cursor] at hrun
  unfold Grammar.readAll
  rw [hls]
  dsimp only
  rw [hrun]
  generalize (alone ls).cursor (ls.map (·.kind)).length = c at hrest
  obtain ⟨rest, stop⟩ := c
  cases hrest
  rfl

theorem readAll_eq_some {α : Type} {text : List Char} {p : (Goal → Parser Node) → Parser α} {a : α}
    (h : Grammar.readAll text p = some a) : ∃ ls stop, lexemes? text = some ls ∧
      (p (parseWithin (depthFor text.length))).run ⟨ls, 0⟩ = some (a, ⟨[], stop⟩) := by
  unfold Grammar.readAll at h
  split at h
  · cases h
  · rename_i ls hls
    split at h
    · rename_i hrun
      cases h
      exact ⟨ls, _, hls, hrun⟩
    · cases h

end

/-- The lexemes from the place `i` up to the place `j`, in front of the others. -/
def Window.part (V : Window) (i j : Nat) : Window :=
  ⟨(V.lexemes.drop i).take (j - i), (V.cursor j).rest, V.stop i⟩

section

variable {V : Window} {i j k : Nat}

theorem Window.part_cursor (hij : i ≤ j) (hk : i + k ≤ j) :
    (V.part i j).cursor k = V.cursor (i + k) := by
  have hrest : ((V.lexemes.drop i).take (j - i)).drop k ++ (V.lexemes.drop j ++ V.behind) =
      V.lexemes.drop (i + k) ++ V.behind := by
    rw [List.drop_take, List.drop_drop, ← List.append_assoc]
    congr 1
    have hsplit := List.take_append_drop (j - i - k) (V.lexemes.drop (i + k))
    rwa [List.drop_drop, show i + k + (j - i - k) = j by omega] at hsplit
  have hstop : (V.part i j).stop k = V.stop (i + k) := by
    cases k with
    | zero => rfl
    | succ k =>
      have hget : ((V.lexemes.drop i).take (j - i))[k]? = V.lexemes[i + k]? := by
        rw [List.getElem?_take, if_pos (by omega), List.getElem?_drop]
      rw [Window.stop, Window.part, hget]
      rfl
  calc (V.part i j).cursor k
      = ⟨((V.lexemes.drop i).take (j - i)).drop k ++ (V.lexemes.drop j ++ V.behind),
          (V.part i j).stop k⟩ := rfl
    _ = V.cursor (i + k) := by
        rw [hrest, hstop]
        rfl

theorem foldlM_shift_append {ks : List LexemeKind} {p q : List Char} (r : List Char)
    (h : ks.foldlM shift p = some q) : ks.foldlM shift (p ++ r) = some (q ++ r) := by
  induction ks generalizing p with
  | nil =>
    cases h
    rfl
  | cons k ks ih =>
    rw [List.foldlM_cons] at h ⊢
    obtain ⟨next, hnext, hrest⟩ := Option.bind_eq_some_iff.mp h
    rw [shift_append hnext r]
    exact ih hrest

/-- Between two places where no bracket is open all brackets are closed. -/
theorem Open.part {ks : List LexemeKind} (hi : Open ks i []) (hj : Open ks j []) (hij : i ≤ j) :
    Open ((ks.drop i).take (j - i)) 0 [] := by
  refine ⟨Nat.zero_le _, ?_⟩
  have hclosed := hi.closed
  have hsplit : (ks.drop i).take (j - i) ++ ks.drop j = ks.drop i := by
    have h := List.take_append_drop (j - i) (ks.drop i)
    rwa [List.drop_drop, show i + (j - i) = j by omega] at h
  rw [← hsplit, List.foldlM_append] at hclosed
  obtain ⟨p, hp, hrest⟩ := Option.bind_eq_some_iff.mp hclosed
  have hnone := foldlM_shift_append p hj.closed
  rw [List.nil_append, hrest] at hnone
  rw [List.drop_zero, hp, Option.some.inj hnone]

theorem load_take_le (ks : List LexemeKind) (n : Nat) : load (ks.take n) ≤ load ks := by
  induction ks generalizing n with
  | nil => exact Nat.le_of_eq (by rw [List.take_nil])
  | cons k ks ih =>
    cases n with
    | zero => exact Nat.zero_le _
    | succ n =>
      have hle := ih n
      rw [List.take_succ_cons, load, load]
      omega

theorem enough_part_le (ks : List LexemeKind) (i n : Nat) :
    enough ((ks.drop i).take n) ≤ enough ks := by
  have hdrop : load (ks.drop i) ≤ load ks := load_drop_le ks (Nat.zero_le i)
  have htake := load_take_le (ks.drop i) n
  unfold enough
  omega

/-- What is read from one place of a window up to another is a phrase. -/
theorem Phrase.of_part {targets : Bool} {ks : List LexemeKind} {g : Goal} {e : Expr} {n : Nat}
    (hV : V.kinds = ks) (hi : Open ks i []) (hj : Open ks j []) (hij : i ≤ j)
    (hends : Ends targets (V.cursor j).rest) (hg : Allowed targets g) (hn : enough ks ≤ n)
    (h : outcome (parseWithin n g) (V.cursor i) = some (e, V.cursor j)) :
    Phrase targets ((ks.drop i).take (j - i)) g e := by
  have hkinds : (V.part i j).kinds = (ks.drop i).take (j - i) := by
    rw [← hV, Window.kinds, Window.kinds, Window.part, List.map_take, List.map_drop]
  have hpart : ((ks.drop i).take (j - i)).length = j - i := by
    have hle := hj.le
    rw [List.length_take, List.length_drop]
    omega
  refine .of_window (V := V.part i j) hkinds hends (hi.part hj hij) hg
    (rank_lt_of_enough g (Nat.le_trans (enough_part_le ks i _) hn)) ?_
  rw [hpart, Window.part_cursor hij hij, Window.part_cursor hij (Nat.le_of_eq (by omega)),
    show i + (j - i) = j by omega]
  exact h

theorem Phrase.read_part {targets : Bool} {ks : List LexemeKind} {g : Goal} {e : Expr} {n : Nat}
    (h : Phrase targets ((ks.drop i).take (j - i)) g e) (hV : V.kinds = ks) (hij : i ≤ j)
    (hj : j ≤ ks.length) (hends : Ends targets (V.cursor j).rest) (hn : enough ks ≤ n) :
    outcome (parseWithin n g) (V.cursor i) = some (e, V.cursor j) := by
  have hkinds : (V.part i j).kinds = (ks.drop i).take (j - i) := by
    rw [← hV, Window.kinds, Window.kinds, Window.part, List.map_take, List.map_drop]
  have hpart : ((ks.drop i).take (j - i)).length = j - i := by
    rw [List.length_take, List.length_drop]
    omega
  have hread := h.read (V.part i j) n hkinds hends (Nat.le_trans (enough_part_le ks i _) hn)
  rwa [hpart, Window.part_cursor hij hij, Window.part_cursor hij (Nat.le_of_eq (by omega)),
    show i + (j - i) = j by omega] at hread

theorem Ends.of_word {targets : Bool} {w : String} {rest : List Lexeme} {ks : List LexemeKind}
    (hw : w = "as" ∨ w = "in" ∧ targets = true) (h : rest.map (·.kind) = .name w :: ks) :
    Ends targets rest := by
  obtain ⟨l, ls, rfl, hl, -⟩ := List.map_eq_cons_iff.mp h
  exact .word hw hl

theorem Phrase.read_between {targets : Bool} {A P B : List LexemeKind} {g : Goal} {e : Expr} {n : Nat}
    {ls : List Lexeme} (h : Phrase targets P g e) (hks : ls.map (·.kind) = A ++ (P ++ B))
    (hB : ∀ rest : List Lexeme, rest.map (·.kind) = B → Ends targets rest)
    (hn : enough (ls.map (·.kind)) ≤ n) :
    outcome (parseWithin n g) ((alone ls).cursor A.length) =
      some (e, (alone ls).cursor (A.length + P.length)) := by
  have hP : ((ls.map (·.kind)).drop A.length).take (A.length + P.length - A.length) = P := by
    rw [hks, List.drop_left, Nat.add_sub_cancel_left, List.take_left]
  have hle : A.length + P.length ≤ (ls.map (·.kind)).length := by
    rw [hks, List.length_append, List.length_append]
    omega
  refine (hP ▸ h).read_part (V := alone ls) rfl (Nat.le_add_right _ _) hle (hB _ ?_) hn
  rw [alone_rest, List.map_drop, hks, ← List.drop_drop, List.drop_left, List.drop_left]

end

theorem bind_eq_some {α β : Type} {p : Parser α} {f : α → Parser β} {c : Cursor} {r : β × Cursor}
    (h : (p >>= f).run c = some r) :
    ∃ a c', p.run c = some (a, c') ∧ (f a).run c' = some r := by
  rw [StateT.run_bind] at h
  obtain ⟨⟨a, c'⟩, hp, hf⟩ := Option.bind_eq_some_iff.mp h
  exact ⟨a, c', hp, hf⟩

section

variable {ls : List Lexeme} {i : Nat} {c : Cursor}

theorem alone_next {l : Lexeme} {rest : List Lexeme} (h : ((alone ls).cursor i).rest = l :: rest) :
    (ls.map (·.kind))[i]? = some l.kind ∧ (alone ls).cursor (i + 1) = ⟨rest, l.stop⟩ := by
  rw [alone_rest] at h
  have hget : ls[i]? = some l := by
    rw [← List.head?_drop, h]
    rfl
  have hrest : ((alone ls).cursor (i + 1)).rest = rest := by
    rw [alone_rest, ← List.drop_drop, h]
    rfl
  refine ⟨by rw [List.getElem?_map, hget]; rfl, ?_⟩
  have hstop : (alone ls).stop (i + 1) = l.stop := by
    rw [Window.stop, alone, hget]
    rfl
  rw [← hrest, ← hstop]
  rfl

theorem next_alone {k : LexemeKind} (h : next.run ((alone ls).cursor i) = some (k, c)) :
    (ls.map (·.kind))[i]? = some k ∧ c = (alone ls).cursor (i + 1) := by
  have hnil (stop : Nat) : next.run ⟨[], stop⟩ = none := rfl
  have hcons (l : Lexeme) (rest : List Lexeme) (stop : Nat) :
      next.run ⟨l :: rest, stop⟩ = some (l.kind, ⟨rest, l.stop⟩) := rfl
  cases hcursor : (alone ls).cursor i with
  | mk rest stop =>
    rw [hcursor] at h
    cases rest with
    | nil =>
      rw [hnil] at h
      cases h
    | cons l rest =>
      rw [hcons] at h
      obtain ⟨hkind, hnext⟩ := alone_next (congrArg Cursor.rest hcursor)
      cases h
      exact ⟨hkind, hnext.symm⟩

theorem accepted_alone {p : Parser Bool} {k : LexemeKind} {b : Bool}
    (hp : ∀ c, p.run c = some (decide (c.rest.head?.map (·.kind) = some k), c))
    (h : (do
      if ← p then
        let _ ← next
        return true
      else return false : Parser Bool).run ((alone ls).cursor i) = some (b, c)) :
    b = true ∧ (ls.map (·.kind))[i]? = some k ∧ c = (alone ls).cursor (i + 1) ∨
      b = false ∧ c = (alone ls).cursor i := by
  obtain ⟨b', c', hat, h⟩ := bind_eq_some h
  rw [hp] at hat
  obtain ⟨rfl, rfl⟩ := Prod.mk.inj (Option.some.inj hat)
  split at h
  · rename_i hhead
    obtain ⟨k', c', hnext, hpure⟩ := bind_eq_some h
    cases hpure
    obtain ⟨-, rfl⟩ := next_alone hnext
    obtain ⟨l, hl, hlk⟩ := Option.map_eq_some_iff.mp (of_decide_eq_true hhead)
    obtain ⟨rest, hrest⟩ := List.head?_eq_some_iff.mp hl
    exact .inl ⟨rfl, (alone_next hrest).1.trans (congrArg some hlk), rfl⟩
  · cases h
    exact .inr ⟨rfl, rfl⟩

theorem required_alone {p : Parser Bool} {k : LexemeKind} {u : Unit}
    (hp : ∀ c, p.run c = some (decide (c.rest.head?.map (·.kind) = some k), c))
    (h : (do
      if ← (do
        if ← p then
          let _ ← next
          return true
        else return false) then return () else failure : Parser Unit).run ((alone ls).cursor i) =
          some (u, c)) :
    (ls.map (·.kind))[i]? = some k ∧ c = (alone ls).cursor (i + 1) := by
  obtain ⟨b, c', haccept, h⟩ := bind_eq_some h
  rcases accepted_alone hp haccept with ⟨rfl, hk, rfl⟩ | ⟨rfl, rfl⟩
  · cases h
    exact ⟨hk, rfl⟩
  · cases h

theorem acceptWord_alone {s : String} {b : Bool}
    (h : (acceptWord s).run ((alone ls).cursor i) = some (b, c)) :
    b = true ∧ (ls.map (·.kind))[i]? = some (.name s) ∧ c = (alone ls).cursor (i + 1) ∨
      b = false ∧ c = (alone ls).cursor i :=
  accepted_alone (fun c => atWord_run c s) h

theorem expect_alone {s : String} {u : Unit} (h : (expect s).run ((alone ls).cursor i) = some (u, c)) :
    (ls.map (·.kind))[i]? = some (.symbol s) ∧ c = (alone ls).cursor (i + 1) :=
  required_alone (fun c => atSymbol_run c s) h

theorem expectWord_alone {s : String} {u : Unit}
    (h : (expectWord s).run ((alone ls).cursor i) = some (u, c)) :
    (ls.map (·.kind))[i]? = some (.name s) ∧ c = (alone ls).cursor (i + 1) :=
  required_alone (fun c => atWord_run c s) h

end

section

variable {ls : List Lexeme} {i : Nat} {c : Cursor}

theorem goal_alone {targets : Bool} {g : Goal} {n : Nat} {x : Node}
    (hopen : Open (ls.map (·.kind)) i []) (hg : Allowed targets g) (hn : enough (ls.map (·.kind)) ≤ n)
    (h : (parseWithin n g).run ((alone ls).cursor i) = some (x, c)) :
    ∃ j, i < j ∧ c = (alone ls).cursor j ∧ Open (ls.map (·.kind)) j [] ∧
      ∃ i' j', x.span = (alone ls).span i' j' ∧ Grouped (alone ls) x.expr i i' j' j := by
  have hself : Twins targets (ls.map (·.kind)) (alone ls) (alone ls) :=
    ⟨rfl, rfl, .nothing, .nothing⟩
  rcases hself.reads (g := g) hopen (fun _ => hg) hn hn with ⟨hnone, -⟩ | ⟨x', y, j, hl, -, hread⟩
  · rw [hnone] at h
    cases h
  · rw [hl] at h
    obtain ⟨rfl, rfl⟩ := Prod.mk.inj (Option.some.inj h)
    obtain ⟨i', j', hspan, -, hgrouped⟩ := hread.stretch
    exact ⟨j, hread.lt, rfl, hread.opened, i', j', hspan, hgrouped⟩

end

/-- The lexemes of a loop header: a target, and what it runs over. -/
structure HeaderPhrases (ls : List Lexeme) (n : Nat) (t s : Node) (T S : List LexemeKind) :
    Prop where
  kinds : ls.map (·.kind) =
    .name "for" :: (T ++ .name "in" :: (S ++ [.symbol ":", .newline, .name "pass"]))
  target : Phrase true T .targets t.expr
  source : Phrase false S .starExpressions s.expr
  stretch : ∃ i' j', s.span = (alone ls).span i' j' ∧
    Grouped (alone ls) s.expr (T.length + 2) i' j' (T.length + 2 + S.length)

theorem headerRule_phrases {ls : List Lexeme} {n : Nat} {t s : Node} {stop : Nat}
    (hopen : Open (ls.map (·.kind)) 0 []) (hn : enough (ls.map (·.kind)) ≤ n)
    (h : (Expr.headerRule (parseWithin n)).run ⟨ls, 0⟩ = some ((t, s), ⟨[], stop⟩)) :
    ∃ T S, HeaderPhrases ls n t s T S := by
  rw [← alone_cursor] at h
  obtain ⟨_, c, hrun, h⟩ := bind_eq_some h
  obtain ⟨hfor, rfl⟩ := expectWord_alone hrun
  obtain ⟨t', c, htarget, h⟩ := bind_eq_some h
  have hopen₁ : Open (ls.map (·.kind)) 1 [] := hopen.step hfor rfl
  obtain ⟨j, h₁j, rfl, hj, -⟩ :=
    goal_alone hopen₁ (show Allowed true .targets from fun _ => .inr (.inr (.inr rfl))) hn htarget
  obtain ⟨_, c, hrun, h⟩ := bind_eq_some h
  obtain ⟨hin, rfl⟩ := expectWord_alone hrun
  obtain ⟨s', c, hsource, h⟩ := bind_eq_some h
  have hopen₂ : Open (ls.map (·.kind)) (j + 1) [] := hj.step hin rfl
  obtain ⟨k, hjk, rfl, hk, hstretch⟩ := goal_alone hopen₂ (show Allowed false .starExpressions from nofun) hn hsource
  obtain ⟨_, c, hrun, h⟩ := bind_eq_some h
  obtain ⟨hcolon, rfl⟩ := expect_alone hrun
  obtain ⟨l, c, hrun, h⟩ := bind_eq_some h
  obtain ⟨hline, rfl⟩ := next_alone hrun
  obtain rfl : l = .newline := by
    by_contra hne
    rw [if_neg hne] at h
    cases h
  obtain ⟨_, c, hrun, h⟩ := bind_eq_some h
  obtain ⟨hpass, rfl⟩ := expectWord_alone hrun
  obtain ⟨hresult, hend⟩ := Prod.mk.inj (Option.some.inj h)
  obtain ⟨rfl, rfl⟩ := Prod.mk.inj hresult
  have hlength : ls.length ≤ k + 1 + 1 + 1 := by
    have hrest := congrArg Cursor.rest hend
    rw [alone_rest] at hrest
    exact List.drop_eq_nil_iff.mp hrest
  have hcons {i : Nat} {a : LexemeKind} (h : (ls.map (·.kind))[i]? = some a) :
      (ls.map (·.kind)).drop i = a :: (ls.map (·.kind)).drop (i + 1) := by
    obtain ⟨hi, rfl⟩ := List.getElem?_eq_some_iff.mp h
    exact List.drop_eq_getElem_cons hi
  have hsplit {i j : Nat} (hij : i ≤ j) : (ls.map (·.kind)).drop i =
      ((ls.map (·.kind)).drop i).take (j - i) ++ (ls.map (·.kind)).drop j := by
    have h := List.take_append_drop (j - i) ((ls.map (·.kind)).drop i)
    rw [List.drop_drop, show i + (j - i) = j by omega] at h
    exact h.symm
  have hhead {i : Nat} {a : LexemeKind} (h : (ls.map (·.kind))[i]? = some a) :
      ∃ l, l.kind = a ∧ ((alone ls).cursor i).rest = l :: ((alone ls).cursor (i + 1)).rest := by
    obtain ⟨l, -, hkind, hcursor⟩ := Window.cursor_of_kind (V := alone ls) rfl h
    exact ⟨l, hkind, congrArg Cursor.rest hcursor⟩
  have htargetEnds : Ends true ((alone ls).cursor j).rest := by
    obtain ⟨l, hkind, hrest⟩ := hhead hin
    rw [hrest]
    exact .word (.inr ⟨rfl, rfl⟩) hkind
  have hsourceEnds : Ends false ((alone ls).cursor k).rest := by
    obtain ⟨l, hkind, hrest⟩ := hhead hcolon
    obtain ⟨l', hkind', hrest'⟩ := hhead hline
    rw [hrest, hrest']
    exact .colon hkind hkind'
  have hkle := hk.le
  have htargetLength : (((ls.map (·.kind)).drop 1).take (j - 1)).length = j - 1 := by
    rw [List.length_take, List.length_drop]
    omega
  have hsourceLength : (((ls.map (·.kind)).drop (j + 1)).take (k - (j + 1))).length =
      k - (j + 1) := by
    rw [List.length_take, List.length_drop]
    omega
  refine ⟨((ls.map (·.kind)).drop 1).take (j - 1),
    ((ls.map (·.kind)).drop (j + 1)).take (k - (j + 1)), ?_, ?_, ?_, ?_⟩
  · have hdrop : (ls.map (·.kind)).drop (k + 1 + 1 + 1) = [] :=
      List.drop_eq_nil_iff.mpr (by rwa [List.length_map])
    calc ls.map (·.kind)
        = .name "for" :: (ls.map (·.kind)).drop 1 := hcons hfor
      _ = .name "for" :: (((ls.map (·.kind)).drop 1).take (j - 1) ++
            (.name "in" :: (ls.map (·.kind)).drop (j + 1))) := by
          rw [← hcons hin, ← hsplit (by omega)]
      _ = .name "for" :: (((ls.map (·.kind)).drop 1).take (j - 1) ++
            (.name "in" :: (((ls.map (·.kind)).drop (j + 1)).take (k - (j + 1)) ++
              [.symbol ":", .newline, .name "pass"]))) := by
          rw [← hdrop, ← hcons hpass, ← hcons hline, ← hcons hcolon, ← hsplit (by omega)]
  · exact .of_part (V := alone ls) rfl hopen₁ hj (Nat.le_of_lt h₁j) htargetEnds
      (fun _ => .inr (.inr (.inr rfl))) hn (outcome_eq_some.mpr ⟨_, htarget, rfl⟩)
  · exact .of_part (V := alone ls) rfl hopen₂ hk (Nat.le_of_lt hjk) hsourceEnds nofun hn
      (outcome_eq_some.mpr ⟨_, hsource, rfl⟩)
  · obtain ⟨i', j', hspan, hgrouped⟩ := hstretch
    refine ⟨i', j', hspan, ?_⟩
    rw [htargetLength, hsourceLength, show j - 1 + 2 = j + 1 by omega,
      show j + 1 + (k - (j + 1)) = k by omega]
    exact hgrouped

end Stencil.Grammar
