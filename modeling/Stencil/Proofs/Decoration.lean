import Mathlib.Data.List.Infix
import Stencil.Diagnostic.Error
import Stencil.Proofs.Spelling
import Stencil.Proofs.Unescaping

/-!
# Decorated messages

With colors on, a message is made of plain pieces and of pieces between control sequences, and the
characters at which they meet are blanks, line ends, quotes and others that no code of an error
has. Stripping the control sequences leaves the pieces and nothing else. A code is in the decorated
message exactly if it is in the plain one, so whether it is put in front does not hang on the
colors.
-/

namespace Stencil

namespace Text

theorem occursIn_iff (needle s : List Char) : occursIn needle s = true ↔ needle <:+: s := by
  constructor
  · intro h
    obtain ⟨n, hn⟩ := Option.isSome_iff_exists.mp h
    obtain ⟨before, after, rfl, -⟩ := append_of_indexOf? hn
    exact ⟨before, after, rfl⟩
  · rintro ⟨before, after, rfl⟩
    rw [List.append_assoc]
    induction before with
    | nil =>
      have hbegins := dropBeginning?_append needle after
      rw [List.nil_append]
      cases hs : needle ++ after with
      | nil =>
        rw [(List.append_eq_nil_iff.mp hs).1]
        rfl
      | cons c s =>
        rw [hs] at hbegins
        unfold occursIn indexOf?
        rw [if_pos (by rw [hbegins]; rfl)]
        rfl
    | cons c before ih => exact occursIn_cons c ih

theorem prefix_append_cons {w : List Char} {c : Char} (hc : c ∉ w) (a b : List Char)
    (h : w <+: a ++ c :: b) : w <+: a := by
  obtain ⟨rest, hrest⟩ := h
  rcases List.append_eq_append_iff.mp hrest with ⟨more, ha, -⟩ | ⟨more, rfl, hmore⟩
  · exact ⟨more, ha.symm⟩
  · cases more with
    | nil => exact ⟨[], by rw [List.append_nil, List.append_nil]⟩
    | cons d more =>
      rw [List.cons_append, List.cons.injEq] at hmore
      exact absurd (by simp [hmore.1]) hc

/-- A word does not go over a character that it does not have. -/
theorem infix_append_cons {w : List Char} {c : Char} (hc : c ∉ w) (a b : List Char) :
    w <:+: a ++ c :: b ↔ w <:+: a ∨ w <:+: b := by
  constructor
  · intro h
    induction a with
    | nil =>
      rcases List.infix_cons_iff.mp h with hbegins | hinside
      · exact .inl (prefix_append_cons hc [] b hbegins).isInfix
      · exact .inr hinside
    | cons d a ih =>
      rcases List.infix_cons_iff.mp h with hbegins | hinside
      · exact .inl (prefix_append_cons hc (d :: a) b hbegins).isInfix
      · exact (ih hinside).imp_left fun ha => List.infix_cons_iff.mpr (.inr ha)
  · rintro (h | h)
    · exact h.trans (List.prefix_append a _).isInfix
    · exact h.trans (List.suffix_append_of_suffix (List.suffix_cons c b)).isInfix

/-- A word does not go over a join at which one text begins with such a character. -/
theorem infix_append_of_head {w a b : List Char} {c : Char} (hc : c ∉ w) (hb : b.head? = some c) :
    w <:+: a ++ b ↔ w <:+: a ∨ w <:+: b := by
  obtain ⟨b, rfl⟩ := List.head?_eq_some_iff.mp hb
  have hself := infix_append_cons hc [] b
  rw [List.nil_append] at hself
  rw [infix_append_cons hc, hself]
  constructor
  · exact Or.imp_right .inr
  · rintro (h | h | h)
    · exact .inl h
    · exact .inl (h.trans (List.nil_infix))
    · exact .inr h

theorem infix_append_of_last {w a b : List Char} {c : Char} (hc : c ∉ w)
    (ha : a.getLast? = some c) : w <:+: a ++ b ↔ w <:+: a ∨ w <:+: b := by
  obtain ⟨a, rfl⟩ := List.getLast?_eq_some_iff.mp ha
  rw [List.append_assoc, List.singleton_append, infix_append_cons hc, infix_append_cons hc]
  constructor
  · exact Or.imp_left .inl
  · rintro ((h | h) | h)
    · exact .inl h
    · exact .inl (h.trans (List.nil_infix))
    · exact .inr h

end Text

namespace Terminal

/-- A text without control sequences, complete or not. -/
def IsPlain (s : String) : Prop := '\x1b' ∉ s.toList

instance (s : String) : Decidable (IsPlain s) := inferInstanceAs (Decidable (¬ _))

theorem IsPlain.append {s t : String} (hs : IsPlain s) (ht : IsPlain t) : IsPlain (s ++ t) := by
  unfold IsPlain at hs ht ⊢
  rw [String.toList_append, List.mem_append]
  exact not_or.mpr ⟨hs, ht⟩

def stripped (s : List Char) : List Char := stripFrom (s.length + 1) s

theorem afterSequence?_length {s rest : List Char} (h : afterSequence? s = some rest) :
    rest.length < s.length := by
  unfold afterSequence? at h
  split at h
  · cases h
  · rename_i cs
    split at h
    · cases h
    · rename_i c more hdrop
      split at h
      · cases h
        have hinner := (List.dropWhile_suffix (between ' ' '/')
          (l := cs.dropWhile (between '0' '?'))).length_le
        have houter := (List.dropWhile_suffix (between '0' '?') (l := cs)).length_le
        rw [hdrop, List.length_cons] at hinner
        rw [List.length_cons]
        omega
      · cases h
  · split at h
    · cases h
      exact Nat.lt_succ_self _
    · cases h

/-- More steps than a text has characters change nothing. -/
theorem stripFrom_eq {n : Nat} {s : List Char} (h : s.length < n) : stripFrom n s = stripped s := by
  unfold stripped
  induction hlength : s.length using Nat.strong_induction_on generalizing n s with
  | h k ih =>
    cases n with
    | zero => exact absurd h (Nat.not_lt_zero _)
    | succ n =>
      cases s with
      | nil => rfl
      | cons c s =>
        rw [List.length_cons] at h hlength
        have hrest (rest : List Char) (hrest : rest.length ≤ s.length) :
            stripFrom n rest = stripFrom k rest := by
          rw [ih rest.length (by omega) (by omega) rfl]
          exact (ih rest.length (by omega) (by omega) rfl).symm
        unfold stripFrom
        split
        · split
          · rename_i rest hafter
            exact hrest rest (afterSequence?_length hafter).le
          · rw [hrest s le_rfl]
        · rw [hrest s le_rfl]

@[simp] theorem stripped_nil : stripped [] = [] := rfl

theorem stripped_cons {c : Char} (hc : c ≠ '\x1b') (s : List Char) :
    stripped (c :: s) = c :: stripped s := by
  unfold stripped
  rw [List.length_cons, stripFrom, if_neg hc]

theorem stripped_sequence {s rest : List Char} (h : afterSequence? s = some rest) :
    stripped ('\x1b' :: s) = stripped rest := by
  have hlength := afterSequence?_length h
  rw [stripped, List.length_cons, stripFrom, if_pos rfl, h]
  exact stripFrom_eq (by omega)

theorem stripped_plain {s : List Char} (hs : '\x1b' ∉ s) (rest : List Char) :
    stripped (s ++ rest) = s ++ stripped rest := by
  induction s with
  | nil => rfl
  | cons c s ih =>
    rw [List.mem_cons, not_or] at hs
    rw [List.cons_append, stripped_cons (Ne.symm hs.1), ih hs.2, List.cons_append]

theorem stripped_style (style : Style) (rest : List Char) :
    stripped (style.sequence.toList ++ rest) = stripped rest := by
  cases style <;> exact stripped_sequence rfl

theorem toList_colorize (styles : List Style) (s : String) :
    (colorize true styles s).toList = s.toList ∨
      (colorize true styles s).toList =
        styles.flatMap (·.sequence.toList) ++ s.toList ++ Style.reset.sequence.toList := by
  unfold colorize
  split
  · refine .inr ?_
    rw [String.toList_append, String.toList_append, String.toList_join, List.flatMap_map]
  · exact .inl rfl

def isCodeChar (c : Char) : Bool := c.isUpper || c.isDigit || c = '-'

def separates (c : Char) : Bool := !isCodeChar c

/-- Texts that set other texts apart, at their beginning and at their end. -/
structure IsApart (s : String) : Prop where
  plain : IsPlain s
  front : s.toList.head?.any separates = true
  back : s.toList.getLast?.any separates = true

/-- A text and the same text with some of its pieces styled. -/
inductive Decorated : String → String → Prop
  | plain {s : String} (hs : IsPlain s) : Decorated s s
  | styled (styles : List Style) {s : String} (hs : IsPlain s) :
      Decorated (colorize true styles s) s
  | between {a a' sep b b' : String} (ha : Decorated a a') (hsep : IsApart sep)
      (hb : Decorated b b') : Decorated (a ++ sep ++ b) (a' ++ sep ++ b')

namespace Decorated

variable {a a' b b' s t : String}

theorem colorize {styles : List Style} (hs : IsPlain s) :
    Decorated (Terminal.colorize true styles s) (Terminal.colorize false styles s) := by
  rw [colorize_off]
  exact .styled styles hs

theorem behind {sep : String} (hsep : IsApart sep) (hb : Decorated b b') :
    Decorated (sep ++ b) (sep ++ b') := by
  have h := between (.plain (s := "") (by decide)) hsep hb
  rwa [String.empty_append] at h

theorem before {sep : String} (ha : Decorated a a') (hsep : IsApart sep) :
    Decorated (a ++ sep) (a' ++ sep) := by
  have h := between ha hsep (.plain (s := "") (by decide))
  rwa [String.append_empty, String.append_empty] at h

theorem joined {sep : String} (hsep : IsApart sep) {ls ls' : List String}
    (h : List.Forall₂ Decorated ls ls') : Decorated (sep.intercalate ls) (sep.intercalate ls') := by
  induction h with
  | nil => exact .plain (by simp [IsPlain])
  | @cons l l' ls ls' hl hls ih =>
    cases hls with
    | nil => simpa using hl
    | cons => simpa using between hl hsep ih

theorem stripped_append (h : Decorated s t) (rest : List Char) :
    stripped (s.toList ++ rest) = t.toList ++ stripped rest := by
  induction h generalizing rest with
  | plain hs => exact stripped_plain hs rest
  | @styled styles s hs =>
    have hsequences (rest : List Char) :
        stripped (styles.flatMap (·.sequence.toList) ++ rest) = stripped rest := by
      induction styles with
      | nil => rfl
      | cons style styles ih => rw [List.flatMap_cons, List.append_assoc, stripped_style, ih]
    rcases toList_colorize styles s with h | h
    · rw [h, stripped_plain hs]
    · simp only [h, List.append_assoc]
      rw [hsequences, stripped_plain hs, stripped_style]
  | between ha hsep hb iha ihb =>
    simp only [String.toList_append, List.append_assoc]
    rw [iha, stripped_plain hsep.plain, ihb]

theorem strip_eq (h : Decorated s t) : strip s = t := by
  have hs := h.stripped_append []
  rw [List.append_nil, stripped_nil, List.append_nil] at hs
  have hstrip : strip s = String.ofList (stripped s.toList) := by
    unfold strip stripped
    rw [String.length_toList]
  rw [hstrip, hs, String.ofList_toList]

/-- A word of such characters as codes have, one of them a dash. -/
structure IsCode (w : List Char) : Prop where
  chars : ∀ c ∈ w, isCodeChar c = true
  dash : '-' ∈ w

theorem isCode_text (c : ErrorCode) : IsCode c.text.toList := by
  cases c <;> exact ⟨List.all_eq_true.mp (by decide), by decide⟩

section Codes

variable {w : List Char} (hw : IsCode w)

include hw

theorem not_mem_code {c : Char} (hc : separates c = true) : c ∉ w := by
  intro hmem
  rw [separates, hw.chars c hmem] at hc
  cases hc

theorem infix_apart {sep : String} (hsep : IsApart sep) (a b : String) :
    w <:+: (a ++ sep ++ b).toList ↔ (w <:+: a.toList ∨ w <:+: sep.toList) ∨ w <:+: b.toList := by
  obtain ⟨c, hfront, hc⟩ := (Option.any_eq_true _ _).mp hsep.front
  obtain ⟨d, hback, hd⟩ := (Option.any_eq_true _ _).mp hsep.back
  have hlast : (a.toList ++ sep.toList).getLast? = some d := by
    rw [List.getLast?_append, hback]
    rfl
  rw [String.toList_append, String.toList_append,
    Text.infix_append_of_last (not_mem_code hw hd) hlast,
    Text.infix_append_of_head (not_mem_code hw hc) hfront]

theorem infix_style (style : Style) (front rest : List Char) :
    w <:+: front ++ (style.sequence.toList ++ rest) ↔ w <:+: front ∨ w <:+: rest := by
  have hsplit : style.sequence.toList ++ rest =
      '\x1b' :: (('[' :: style.parameter.toList) ++ 'm' :: rest) := by
    simp [Style.sequence]
  have hinside : ¬ w <:+: '[' :: style.parameter.toList := by
    intro h
    have hdash : '-' ∈ '[' :: style.parameter.toList := h.subset hw.dash
    cases style <;> exact absurd hdash (by decide)
  rw [hsplit, Text.infix_append_cons (not_mem_code hw (by decide)),
    Text.infix_append_cons (not_mem_code hw (by decide)), or_iff_right hinside]

theorem infix_styles (styles : List Style) (rest : List Char) :
    w <:+: styles.flatMap (·.sequence.toList) ++ rest ↔ w <:+: rest := by
  induction styles with
  | nil => rfl
  | cons style styles ih =>
    have hempty : ¬ w <:+: [] := fun h => List.not_mem_nil (h.subset hw.dash)
    have hstyle := infix_style hw style [] (styles.flatMap (·.sequence.toList) ++ rest)
    rw [List.nil_append, or_iff_right hempty] at hstyle
    rw [List.flatMap_cons, List.append_assoc, hstyle, ih]

theorem infix_iff {s t : String} (h : Decorated s t) : w <:+: s.toList ↔ w <:+: t.toList := by
  induction h with
  | plain hs => exact Iff.rfl
  | @styled styles s hs =>
    rcases toList_colorize styles s with h | h
    · rw [h]
    · have hreset := infix_style hw .reset s.toList []
      have hempty : ¬ w <:+: [] := fun h => List.not_mem_nil (h.subset hw.dash)
      rw [List.append_nil, or_iff_left hempty] at hreset
      rw [h, List.append_assoc, infix_styles hw, hreset]
  | between ha hsep hb iha ihb => rw [infix_apart hw hsep, infix_apart hw hsep, iha, ihb]

end Codes

end Decorated

end Terminal

end Stencil
