import Stencil.Proofs.Blanks
import Stencil.Proofs.LoopHeaders

/-!
# Texts of loop targets

Names and tuples of names hold no keyword. So a header `source as target` is split at the `as` that
stands in front of the target, on however many lines the target is written.
-/

namespace Stencil.Grammar

open Stencil.Expr
open Stencil.Text (isBlank isLineEnd spaced oneLine)

/-- The lexemes of names and of tuples of names. Names are no keywords, and no blank is in them. -/
def isTargetKind : LexemeKind → Bool
  | .name w => !reservedWords.contains w && w.toList.all fun c => !isBlank c
  | .symbol s => ["(", ")", "[", "]", ","].contains s
  | _ => false

/-- A text of names and of tuples of names, on however many lines. -/
structure IsTargetText (t : List Char) : Prop where
  uncommented : '#' ∉ t
  lexemes : ∃ ls, lexemes? (oneLine t) = some ls ∧ ∀ l ∈ ls, isTargetKind l.kind

section

variable {x y after text : List Char} {ss : List Snip}

theorem not_isQuote_of_cut (h : Expr.Cut text ss after) (hcomment : '#' ∉ textOf ss)
    (hss : ∀ k ∈ kindsOf ss, isTargetKind k) : ∀ c ∈ textOf ss, isQuote c = false := by
  induction h with
  | done => exact nofun
  | @snip c cs read rest after p ss hpiece hread h ih =>
    rw [textOf, List.mem_append, not_or, List.mem_cons, not_or] at hcomment
    rw [kindsOf, List.forall_mem_append] at hss
    rw [textOf, List.forall_mem_append]
    refine ⟨?_, ih hcomment.2 hss.2⟩
    have hshort {r : List Char} (heq : r ++ rest = rest) : r = [] :=
      List.append_cancel_right (heq.trans (List.nil_append rest).symm)
    cases p with
    | lexeme k =>
      have hk := hss.1 k List.mem_cons_self
      intro d hd
      refine Bool.eq_false_iff.mpr fun hquote => ?_
      have hbare := isBare_of_piece hpiece hread (fun _ _ heq => by
        rw [heq] at hk
        cases hk) d hd
      rw [not_isBare_of_isQuote hquote] at hbare
      cases hbare
    | newline =>
      obtain ⟨rfl, heq⟩ := newline_of_piece hpiece
      cases hshort (hread.symm.trans heq.symm)
      simp [isQuote]
    | blank =>
      rcases blank_of_piece hpiece with ⟨hc, heq⟩ | ⟨rfl, -⟩ | ⟨rfl, heq⟩
      · cases hshort (hread.symm.trans heq.symm)
        simp only [List.mem_cons, List.not_mem_nil, or_false] at hc
        rcases hc with rfl | rfl | rfl <;> simp [isQuote]
      · exact absurd rfl hcomment.1.1
      · cases List.append_cancel_right (hread.symm.trans heq : read ++ rest = ['\n'] ++ rest)
        simp [isQuote]

theorem cut_as {d : Char} (hd : isBlank d) (h : Expr.Cut ('a' :: 's' :: d :: y) ss []) :
    .name "as" ∈ kindsOf ss := by
  obtain ⟨after, rfl, -⟩ := h.word (t := ['s']) rfl rfl rfl hd
  exact List.mem_cons_self

end

section

variable {t : List Char}

theorem IsTargetText.pieces (h : IsTargetText t) :
    ∃ ss, Expr.Cut (oneLine t) ss [] ∧ (kindsOf ss).foldlM shift [] = some [] ∧
      ∀ k ∈ kindsOf ss, isTargetKind k := by
  obtain ⟨ls, hls, hkinds⟩ := h.lexemes
  obtain ⟨ss, ls', hcut, hall, hsame, -⟩ := cut_of_lexemes? hls
  rw [plain_eq (Text.return_not_mem_oneLine t)] at hcut
  have hlines : ∀ s ∈ ss, s.piece ≠ .newline := by
    refine piece_ne_newline hcut ?_
    have htext := hcut.text_eq
    rw [List.append_nil] at htext
    exact htext ▸ Text.newline_not_mem_oneLine t
  have hown := kinds_of_settleAll hlines hall
  refine ⟨ss, hcut, hown ▸ foldlM_of_settleAll hall, fun k hk => ?_⟩
  rw [← hown, hsame] at hk
  obtain ⟨l, hl, rfl⟩ := List.mem_map.mp hk
  exact hkinds l hl

def between (w : String) : List Snip :=
  [⟨[' '], .blank⟩, ⟨w.toList, .lexeme (.name w)⟩, ⟨[' '], .blank⟩]

theorem cut_between_in (rest : List Char) : Expr.Cut (" in ".toList ++ rest) (between "in") rest :=
  .snip (r := []) rfl rfl (.snip (r := ['n']) rfl rfl (.snip (r := []) rfl rfl (.done rest)))

theorem target_cut {bt : List Snip} (hbt : Expr.Cut (oneLine t) bt []) (hcomment : '#' ∉ oneLine t)
    (rest : List Char) :
    Expr.Cut (oneLine t ++ (" in ".toList ++ rest)) (bt ++ between "in") rest := by
  rw [← List.append_nil (oneLine t)] at hbt
  have hinert : Expr.Inert (" in ".toList ++ rest) := fun c hc => .inl (Option.some.inj hc).symm
  exact (hbt.before hinert (fun hmem => absurd hmem hcomment) nofun).append (cut_between_in rest)

def HoldsAs (text : List Char) : Prop :=
  ∃ front b d back, text = front ++ b :: 'a' :: 's' :: d :: back ∧ isBlank b ∧ isBlank d

theorem isBlank_unreturned {c : Char} (h : isBlank c) : isBlank (Text.unreturned c) := by
  unfold Text.unreturned
  split
  · rfl
  · exact h

theorem isBlank_spaced {c : Char} (h : isBlank c) : isBlank (spaced (Text.unreturned c)) := by
  unfold spaced
  split
  · rfl
  · exact isBlank_unreturned h

/-- In a text without comments and string literals `as` between blanks is a lexeme. -/
theorem not_holdsAs {x : List Char} {ss : List Snip} (hcut : Expr.Cut (oneLine x) ss [])
    (hend : ∀ c ∈ x.getLast?, ¬ isLineEnd c) (hcomment : '#' ∉ x)
    (hstrings : ∀ style body, .string style body ∉ kindsOf ss) (has : .name "as" ∉ kindsOf ss) :
    ¬ HoldsAs x := by
  rintro ⟨front, b, d, back, htext, hb, hd⟩
  obtain ⟨front', hfront⟩ := Text.plain_concat front b
  obtain ⟨back', hback⟩ := Text.plain_head d back
  have hplain : plain x = front' ++ Text.unreturned b :: 'a' :: 's' :: Text.unreturned d :: back' := by
    rw [htext, List.append_cons, Text.plain_append_cons (by decide), hfront, Text.plain_cons (by simp),
      Text.plain_cons (by simp), hback, List.append_assoc]
    rfl
  have hline : oneLine x = front'.map spaced ++ spaced (Text.unreturned b) :: 'a' :: 's' ::
      spaced (Text.unreturned d) :: back'.map spaced := by
    rw [Text.oneLine_eq hend, hplain, List.map_append]
    rfl
  rw [hline] at hcut
  cases hcut.behind_blank (isBlank_spaced hb) with
  | seam hss hafter =>
    subst hss
    rw [kindsOf_append, List.mem_append, not_or] at has
    exact has.2 (cut_as (isBlank_spaced hd) hafter)
  | literal hx hbefore hq hmem hopens hquoted hover hs hpiece =>
    exact hstrings _ _ (mem_kindsOf hs hpiece)
  | comment hx =>
    have hmem : '#' ∈ oneLine x := hline ▸ List.mem_append_left _ hx
    rcases Text.mem_of_mem_oneLine hend hmem with hmem | hblank
    · exact hcomment hmem
    · exact absurd hblank (by decide)

theorem IsTargetText.uncommented_oneLine (h : IsTargetText t)
    (hend : ∀ c ∈ t.getLast?, ¬ isLineEnd c) : '#' ∉ oneLine t := fun hmem =>
  (Text.mem_of_mem_oneLine hend hmem).elim h.uncommented fun hblank => absurd hblank (by decide)

theorem IsTargetText.not_isQuote (h : IsTargetText t) (hend : ∀ c ∈ t.getLast?, ¬ isLineEnd c) :
    ∀ c ∈ oneLine t, isQuote c = false := by
  obtain ⟨ss, hcut, -, hkinds⟩ := h.pieces
  have htext := hcut.text_eq
  rw [List.append_nil] at htext
  rw [htext]
  exact not_isQuote_of_cut hcut (htext ▸ h.uncommented_oneLine hend) hkinds

theorem IsTargetText.plain_apart (h : IsTargetText t) (hend : ∀ c ∈ t.getLast?, ¬ isLineEnd c) :
    '#' ∉ plain t ∧ ∀ c ∈ plain t, isQuote c = false := by
  refine ⟨fun hmem => ?_, fun c hc => Bool.eq_false_iff.mpr fun hquote => ?_⟩
  · exact (Text.mem_plain hmem).elim h.uncommented fun hline => absurd hline (by decide)
  · have hspaced : spaced c = c := by
      rw [isQuote, Bool.or_eq_true, decide_eq_true_eq, decide_eq_true_eq] at hquote
      rcases hquote with rfl | rfl <;> rfl
    have hmem : c ∈ oneLine t := by
      rw [Text.oneLine_eq hend, ← hspaced]
      exact List.mem_map_of_mem hc
    rw [h.not_isQuote hend c hmem] at hquote
    cases hquote

/-- In parentheses a piece begins behind a target and `in`. -/
theorem IsTargetText.cut_in {b : Char} {y : List Char} {ss : List Snip} (h : IsTargetText t)
    (hend : ∀ c ∈ t.getLast?, ¬ isLineEnd c) (hb : isBlank b)
    (hcut : Expr.Cut ('(' :: plain t ++ ' ' :: 'i' :: 'n' :: b :: y) ss []) :
    ∃ after, Expr.Cut (b :: y) after [] := by
  obtain ⟨hcomment, hquotes⟩ := h.plain_apart hend
  cases hcut.behind_blank (b := ' ') rfl with
  | seam hss hafter =>
    obtain ⟨after, -, hcut⟩ := hafter.word (t := ['n']) rfl rfl rfl hb
    exact ⟨after, hcut⟩
  | @literal front _ _ _ q _ _ _ _ _ _ hx _ hq hmem =>
    have hmem' : q ∈ '(' :: plain t := hx ▸ List.mem_append_right front hmem
    rcases List.mem_cons.mp hmem' with rfl | hmem'
    · cases hq
    · rw [hquotes q hmem'] at hq
      cases hq
  | comment hx =>
    exact absurd ((List.mem_cons.mp hx).resolve_left (by decide)) hcomment

theorem HoldsAs.cons {text : List Char} (c : Char) (h : HoldsAs text) : HoldsAs (c :: text) := by
  obtain ⟨front, b, d, back, rfl, hb, hd⟩ := h
  exact ⟨c :: front, b, d, back, rfl, hb, hd⟩

theorem HoldsAs.append {text : List Char} (h : HoldsAs text) (more : List Char) :
    HoldsAs (text ++ more) := by
  obtain ⟨front, b, d, back, rfl, hb, hd⟩ := h
  exact ⟨front, b, d, back ++ more, by simp, hb, hd⟩

theorem holdsAs_between {bl bl' : List Char} (h : bl ≠ [] ∧ ∀ c ∈ bl, isBlank c)
    (h' : bl' ≠ [] ∧ ∀ c ∈ bl', isBlank c) (x y : List Char) :
    HoldsAs (x ++ (bl ++ ("as".toList ++ (bl' ++ y)))) := by
  obtain ⟨bl, b, rfl⟩ := List.eq_nil_or_concat' bl |>.resolve_left h.1
  obtain ⟨d, bl', rfl⟩ := List.exists_cons_of_ne_nil h'.1
  refine ⟨x ++ bl, b, d, bl' ++ y, by simp, h.2 b ?_, h'.2 d List.mem_cons_self⟩
  exact List.mem_append_right bl List.mem_cons_self

theorem IsTargetText.not_holdsAs (h : IsTargetText t) (hend : ∀ c ∈ t.getLast?, ¬ isLineEnd c) :
    ¬ HoldsAs (' ' :: (t ++ " in ".toList)) := by
  obtain ⟨ss, hcut, -, hkinds⟩ := h.pieces
  have hline : oneLine (' ' :: (t ++ " in ".toList)) = ' ' :: (oneLine t ++ " in ".toList) := by
    rw [Text.oneLine_char (by decide)]
    exact congrArg _ (Text.oneLine_append hend (b := ['i', 'n', ' ']) (by simp; decide))
  have hlast : ∀ c ∈ (' ' :: (t ++ " in ".toList)).getLast?, ¬ isLineEnd c := by
    rw [← List.cons_append, List.getLast?_append_of_ne_nil _ (by decide)]
    intro c hc
    cases hc
    decide
  have hcut' : Expr.Cut (oneLine (' ' :: (t ++ " in ".toList)))
      (⟨[' '], .blank⟩ :: (ss ++ between "in")) [] := by
    rw [hline, ← List.append_nil (" in ".toList)]
    exact .snip (r := []) rfl rfl (target_cut hcut (h.uncommented_oneLine hend) [])
  have hall {k : LexemeKind} (hk : k ∈ kindsOf (⟨[' '], .blank⟩ :: (ss ++ between "in"))) :
      isTargetKind k ∨ k = .name "in" := by
    rw [kindsOf, kindsOf_append] at hk
    rcases List.mem_append.mp ((List.mem_append.mp hk).resolve_left List.not_mem_nil) with hk | hk
    · exact .inl (hkinds k hk)
    · exact .inr (List.mem_singleton.mp hk)
  refine Grammar.not_holdsAs hcut' hlast ?_ (fun style body hk => ?_) fun hk => ?_
  · simpa using h.uncommented
  · rcases hall hk with hk | hk <;> cases hk
  · rcases hall hk with hk | hk
    · exact absurd hk (by decide)
    · simp at hk

end

end Stencil.Grammar

namespace Stencil.Written

open Text (isBlank)
open Grammar (HoldsAs)

variable {before text front : List Char} {r : List Char × List Char}

theorem search_eq_none (h : ¬ HoldsAs text) : splitAs?.search before text = none := by
  induction text generalizing before with
  | nil => rfl
  | cons c cs ih =>
    rw [splitAs?.search, ih fun hcs => h (hcs.cons c)]
    dsimp only
    split
    · rename_i hblank
      rw [Bool.and_eq_true] at hblank
      split
      · rename_i d rest has
        split
        · rename_i hd
          exfalso
          obtain ⟨blanks, b, hblanks⟩ : ∃ blanks b, c :: cs.takeWhile isBlank = blanks ++ [b] := by
            obtain ⟨blanks, b, h⟩ := (List.eq_nil_or_concat (c :: cs.takeWhile isBlank)).resolve_left
              (List.cons_ne_nil _ _)
            exact ⟨blanks, b, h.trans (List.concat_eq_append ..)⟩
          have hb : isBlank b := by
            have hmem : b ∈ c :: cs.takeWhile isBlank := hblanks ▸ List.mem_append_right _ List.mem_cons_self
            rcases List.mem_cons.mp hmem with rfl | hmem
            · exact hblank.1
            · exact List.mem_takeWhile_imp hmem
          refine h ⟨blanks, b, d, rest, ?_, hb, hd⟩
          rw [List.append_cons, ← hblanks, ← has, List.cons_append, List.takeWhile_append_dropWhile]
        · rfl
      · rfl
    · rfl

theorem search_append (h : splitAs?.search (front.reverse ++ before) text = some r) :
    splitAs?.search before (front ++ text) = some r := by
  induction front generalizing before with
  | nil => exact h
  | cons c front ih =>
    rw [List.reverse_cons, List.append_assoc, List.singleton_append] at h
    rw [List.cons_append, splitAs?.search, ih h]

/-- A header is split at the `as` behind which no other stands between blanks. -/
theorem splitAs?_eq {e t : List Char} (he : e ≠ []) (ht : t ≠ []) (hhead : ∀ c ∈ t.head?, ¬ isBlank c)
    (h : ¬ HoldsAs (' ' :: t)) : splitAs? (e ++ (" as ".toList ++ t)) = some (e, t) := by
  have hnone : splitAs?.search (' ' :: (e.reverse ++ [])) ('a' :: 's' :: ' ' :: t) = none := by
    refine search_eq_none ?_
    rintro ⟨_ | ⟨_, _ | ⟨_, front⟩⟩, b, d, back, htext, hb, hd⟩
    · rw [← (List.cons.inj htext).1] at hb
      cases hb
    · rw [← (List.cons.inj (List.cons.inj htext).2).1] at hb
      cases hb
    · exact h ⟨front, b, d, back, (List.cons.inj (List.cons.inj htext).2).2, hb, hd⟩
  obtain ⟨c, t, rfl⟩ := List.exists_cons_of_ne_nil ht
  have hdrop : (c :: t).dropWhile isBlank = c :: t :=
    List.dropWhile_cons_of_neg (hhead c rfl)
  have hne : (e.reverse ++ []).isEmpty = false := by
    simpa using he
  refine search_append ?_
  change splitAs?.search (e.reverse ++ []) (' ' :: 'a' :: 's' :: ' ' :: c :: t) = _
  have hblank : isBlank ' ' = true := rfl
  have hword : ('a' :: 's' :: ' ' :: c :: t).dropWhile isBlank = 'a' :: 's' :: ' ' :: c :: t := rfl
  rw [splitAs?.search, hnone, hne]
  simp only [hblank, hword, hdrop, Bool.not_false, Bool.and_self, if_true, List.append_nil,
    List.reverse_reverse]

/-- Where a header with `in` is split, it is split behind its `in`. -/
theorem SplitsAs.behind_in {t e e₁ t₁ bl bl' : List Char} (ht : Grammar.IsTargetText t)
    (htEnd : ∀ c ∈ t.getLast?, ¬ Text.isLineEnd c)
    (h : SplitsAs (t ++ (" in ".toList ++ e)) e₁ t₁ bl bl') :
    ∃ u, e₁ = t ++ (" in".toList ++ u) ∧ ' ' :: e = u ++ (bl ++ ("as".toList ++ (bl' ++ t₁))) := by
  have htext : (t ++ " in".toList) ++ ' ' :: e = e₁ ++ (bl ++ ("as".toList ++ (bl' ++ t₁))) := by
    simpa using h.text
  rcases List.append_eq_append_iff.mp htext with ⟨u, hu, hrest⟩ | ⟨w, hw, hrest⟩
  · exact ⟨u, by rw [hu, List.append_assoc], hrest⟩
  by_cases hne : w = []
  · subst hne
    exact ⟨[], by rw [← List.append_assoc, List.append_nil, hw, List.append_nil], hrest.symm⟩
  -- Otherwise the target has the word already.
  exfalso
  have hn : 'n' ∈ w := by
    refine List.mem_of_getLast? ?_
    rw [← List.getLast?_append_of_ne_nil e₁ hne, ← hw, List.getLast?_append_of_ne_nil t (by decide)]
    rfl
  rw [← List.append_assoc, ← List.append_assoc, List.append_assoc bl] at hrest
  rcases List.append_eq_append_iff.mp hrest with ⟨a, rfl, -⟩ | ⟨a, ha, -⟩
  · have hholds : HoldsAs (t ++ " in".toList) := by
      rw [hw]
      simpa using Grammar.holdsAs_between h.blanks h.blanks' e₁ a
    have hholds' := (hholds.append [' ']).cons ' '
    rw [List.append_assoc] at hholds'
    exact ht.not_holdsAs htEnd hholds'
  · have hmem : 'n' ∈ bl ++ ("as".toList ++ bl') := ha ▸ List.mem_append_left a hn
    simp only [List.mem_append] at hmem
    rcases hmem with hmem | hmem | hmem
    · exact absurd (h.blanks.2 _ hmem) (by decide)
    · exact absurd hmem (by decide)
    · exact absurd (h.blanks'.2 _ hmem) (by decide)

end Stencil.Written
