import Stencil.Proofs.Scanning

/-!
# Seams of a text

What a piece of a text can be is told once. Where a blank or a colon follows, and no quote behind it,
a piece ends: only a comment goes on. So a text that is put in front of such a text keeps its own
pieces.
-/

namespace Stencil.Expr

open Text (isAsciiLetter)

section

variable {c q : Char} {cs rest : List Char} {k : LexemeKind} {p : Piece} {style : QuotePrefix}

/-- What a piece of a text can be. -/
inductive Pieced (c : Char) (cs : List Char) : Piece → List Char → Prop
  | skip (hc : c ∈ [' ', '\t', '\x0c']) : Pieced c cs .blank cs
  | newline (hc : c = '\n') : Pieced c cs .newline cs
  | comment (hc : c = '#') : Pieced c cs .blank (cs.dropWhile (· ≠ '\n'))
  | escape {rest : List Char} (hc : c = '\\') (hcs : cs = '\n' :: rest) : Pieced c cs .blank rest
  | literal {word t rest body : List Char} {q : Char} {style : QuotePrefix}
      (htext : c :: cs = word ++ q :: t) (hword : ∀ d ∈ word, isAsciiLetter d) (hq : isQuote q)
      (hopens : ∀ r t', c :: r = word ++ q :: t' → piece? c r = quoted? style (q :: t')) :
      Pieced c cs (.lexeme (.string style body)) rest
  | number {v : Literal} {read rest : List Char} (htext : c :: cs = read ++ rest)
      (hread : ∀ d ∈ read, Numeral.isNumberChar d) : Pieced c cs (.lexeme (.number v)) rest
  | name {word rest : List Char} (hcs : cs = word ++ rest) (hword : isIdentifier (c :: word)) :
      Pieced c cs (.lexeme (.name (String.ofList (c :: word)))) rest
  | symbol {read rest : List Char} (hcs : cs = read ++ rest) (hsymbol : (c :: read) ∈ symbols) :
      Pieced c cs (.lexeme (.symbol (String.ofList (c :: read)))) rest

theorem letters_of_style {word : List Char} (h : QuotePrefix.ofLetters? word = some style) :
    ∀ c ∈ word, isAsciiLetter c := by
  intro c hc
  have hlower {s : String} (hs : s.toList.all Char.isLower)
      (heq : String.ofList (word.map Char.toLower) = s) : isAsciiLetter c := by
    refine Text.isAsciiLetter_of_lower (List.all_eq_true.mp hs _ ?_)
    rw [← heq, String.toList_ofList]
    exact List.mem_map_of_mem hc
  unfold QuotePrefix.ofLetters? at h
  split at h
  case h_10 => cases h
  all_goals
    rename_i heq
    exact hlower (by decide) heq

theorem string_of_quoted (h : quoted? style cs = some (p, rest)) :
    ∃ body, p = .lexeme (.string style body) := by
  cases cs with
  | nil => cases h
  | cons q cs =>
    obtain ⟨r, -, heq⟩ := Option.map_eq_some_iff.mp h
    cases heq
    exact ⟨_, rfl⟩

theorem classOf_quote (hq : isQuote q) (cs : List Char) : classOf q cs = .quote := by
  rw [isQuote, Bool.or_eq_true, decide_eq_true_eq, decide_eq_true_eq] at hq
  rcases hq with rfl | rfl <;> rfl

theorem classOf_letter (hc : isAsciiLetter c) (cs : List Char) : classOf c cs = .word := by
  have hne {d : Char} (hd : isAsciiLetter d = false) : c ≠ d := by
    rintro rfl
    rw [hc] at hd
    cases hd
  have hdigit : c.isDigit = false := by
    simp only [isAsciiLetter, Bool.or_eq_true, Bool.and_eq_true, decide_eq_true_eq, Char.le_def,
      UInt32.le_iff_toNat_le] at hc
    have hlow : 57 < c.val.toNat := by
      rcases hc with ⟨hc, -⟩ | ⟨hc, -⟩
      · change 97 ≤ c.val.toNat at hc
        omega
      · change 65 ≤ c.val.toNat at hc
        omega
    rw [Char.isDigit, Bool.and_eq_false_iff]
    exact .inr (decide_eq_false fun hle => Nat.not_le_of_lt hlow (UInt32.le_iff_toNat_le.mp hle))
  have hbegins : Numeral.begins c cs = false := by
    rw [Numeral.begins, hdigit, decide_eq_false (hne rfl)]
    rfl
  have hname : Numeral.isNameChar c = true := by
    rw [Numeral.isNameChar, Text.isAsciiWord, hc]
    rfl
  have hskip : (decide (c = ' ') || decide (c = '\t') || decide (c = '\x0c')) = false := by
    rw [decide_eq_false (hne rfl), decide_eq_false (hne rfl), decide_eq_false (hne rfl)]
    rfl
  have hquote : (decide (c = '\'') || decide (c = '"')) = false := by
    rw [decide_eq_false (hne rfl), decide_eq_false (hne rfl)]
    rfl
  rw [classOf, hskip, hquote, hbegins, hname]
  simp [hne (d := '\n') rfl, hne (d := '#') rfl, hne (d := '\\') rfl]

/-- A word is a name, or it begins a string literal. -/
theorem pieced_word (hclass : classOf c cs = .word) (h : word? (c :: cs) = some (p, rest)) :
    Pieced c cs p rest := by
  have hc : Numeral.isNameChar c := by
    have hcases := classOf_cases c cs
    rwa [hclass] at hcases
  have hsplit : cs = cs.takeWhile Numeral.isNameChar ++ cs.dropWhile Numeral.isNameChar :=
    List.takeWhile_append_dropWhile.symm
  have hall : ∀ d ∈ c :: cs.takeWhile Numeral.isNameChar, Numeral.isNameChar d :=
    List.forall_mem_cons.mpr ⟨hc, fun d hd => List.mem_takeWhile_imp hd⟩
  have hhead := Numeral.head_dropWhile (p := Numeral.isNameChar) cs
  generalize cs.takeWhile Numeral.isNameChar = word at hsplit hall
  generalize cs.dropWhile Numeral.isNameChar = after at hsplit hhead
  subst hsplit
  rw [← List.cons_append, word?_append hall hhead] at h
  cases hstyle : style? (c :: word) after with
  | none =>
    rw [hstyle] at h
    dsimp only at h
    split at h
    · rename_i hname
      cases h
      exact .name rfl hname
    · cases h
  | some style =>
    rw [hstyle] at h
    obtain ⟨q, t, rfl, hq, hquoted⟩ := style?_eq_some hstyle
    have hletters : QuotePrefix.ofLetters? (c :: word) = some style := by
      unfold style? at hstyle
      rwa [if_pos (by simpa [isQuote] using hq)] at hstyle
    obtain ⟨body, rfl⟩ := string_of_quoted h
    refine .literal (List.cons_append).symm (letters_of_style hletters) hq fun r t' heq => ?_
    obtain rfl : r = word ++ q :: t' := (List.cons.inj heq).2
    have hsame : SameHead (word ++ q :: t) (word ++ q :: t') := by
      cases word <;> exact .inl rfl
    have hhead' : (q :: t').head?.any Numeral.isNameChar = false := hhead
    have hplain : classOf c (word ++ q :: t) ≠ .number := by
      rw [hclass]
      decide
    rw [piece?, classOf_same hsame hplain, hclass]
    change word? (c :: word ++ q :: t') = _
    rw [word?_append hall hhead', hquoted]

theorem pieced (h : piece? c cs = some (p, rest)) : Pieced c cs p rest := by
  have hcases := classOf_cases c cs
  cases hclass : classOf c cs with
  | skip =>
    rw [piece?, hclass] at h
    cases h
    refine .skip ?_
    unfold classOf at hclass
    split_ifs at hclass with hc
    simpa [or_assoc] using hc
  | newline =>
    rw [piece?, hclass] at h
    cases h
    refine .newline ?_
    unfold classOf at hclass
    split_ifs at hclass
    assumption
  | comment =>
    rw [piece?, hclass] at h
    cases h
    exact .comment (classOf_comment hclass)
  | escape =>
    rw [piece?, hclass, pieceOf] at h
    split at h
    · rename_i hline
      cases h
      rw [Bool.and_eq_true, decide_eq_true_eq] at hline
      obtain ⟨rest, rfl⟩ := List.head?_eq_some_iff.mp hline.1
      refine .escape ?_ rfl
      unfold classOf at hclass
      split_ifs at hclass
      assumption
    · cases h
  | quote =>
    rw [hclass] at hcases
    rw [piece?, hclass] at h
    have hrun : quoted? ⟨false, false, false⟩ (c :: cs) = some (p, rest) := h
    obtain ⟨body, rfl⟩ := string_of_quoted hrun
    refine .literal (List.nil_append _).symm (List.forall_mem_nil _) hcases fun r t' heq => ?_
    rw [piece?, classOf_quote hcases, (List.cons.inj heq).2]
    rfl
  | number =>
    rw [piece?, hclass] at h
    obtain ⟨⟨v, rest⟩, hrun, heq⟩ := Option.map_eq_some_iff.mp h
    cases heq
    obtain ⟨read, hread, hnumber⟩ := Numeral.joined_read? hrun
    exact .number hread hnumber
  | word =>
    rw [piece?, hclass] at h
    exact pieced_word hclass h
  | symbol =>
    rw [piece?, hclass] at h
    obtain ⟨s, hrun, heq⟩ := Option.map_eq_some_iff.mp h
    obtain ⟨read, after, rfl, rfl, -⟩ := symbol?_exact hrun
    rw [← List.cons_append, List.drop_left] at heq
    cases heq
    exact .symbol rfl (List.mem_of_find?_eq_some hrun)

end

/-- A text that no piece goes on into but a comment. -/
structure Seam (y : List Char) : Prop where
  head : ∃ c ∈ y.head?, c = ' ' ∨ c = ':'
  quotes : ∀ c ∈ y, isQuote c = false

/-- A string literal ends with the quote that it begins with. -/
theorem quoted?_ends {style : QuotePrefix} {q : Char} {cs rest : List Char} {p : Piece}
    (h : quoted? style (q :: cs) = some (p, rest)) : ∃ r, cs = r ++ q :: rest := by
  by_cases htriple : cs.head? = some q ∧ cs.tail.head? = some q
  · obtain ⟨hhead, htail⟩ := htriple
    obtain ⟨cs, rfl⟩ := List.head?_eq_some_iff.mp hhead
    obtain ⟨cs, rfl⟩ := List.head?_eq_some_iff.mp htail
    rw [quoted?_triple] at h
    obtain ⟨⟨body, rest⟩, hbody, heq⟩ := Option.map_eq_some_iff.mp h
    cases heq
    obtain ⟨rfl, -⟩ := bodyOf_exact (List.cons_ne_nil q _) hbody
    exact ⟨q :: q :: (body ++ [q, q]), by simp⟩
  · rw [quoted?_single htriple] at h
    obtain ⟨⟨body, rest⟩, hbody, heq⟩ := Option.map_eq_some_iff.mp h
    cases heq
    obtain ⟨rfl, -⟩ := bodyOf_exact (List.cons_ne_nil q []) hbody
    exact ⟨body, rfl⟩

theorem symbols_seamless : symbols.all fun s => s.all (· ≠ ' ') && s.tail.all (· ≠ ':') := by
  decide

theorem piece?_seam {c : Char} {x y rest : List Char} {p : Piece} (hx : '\n' ∉ x) (hy : Seam y)
    (h : piece? c (x ++ y) = some (p, rest)) :
    (∃ read z, x = read ++ z ∧ rest = z ++ y) ∨
      c = '#' ∧ p = .blank ∧ rest = (x ++ y).dropWhile (· ≠ '\n') := by
  obtain ⟨d, hd, hsep⟩ := hy.head
  obtain ⟨t, rfl⟩ := List.head?_eq_some_iff.mp hd
  obtain ⟨read, hread, -, -⟩ := piece?_exact h
  rcases (List.append_eq_append_iff.mp hread).symm with ⟨z, rfl, rfl⟩ | ⟨w, rfl, hw⟩
  · exact .inl ⟨read, z, rfl, rfl⟩
  cases w with
  | nil => exact .inl ⟨x, [], by simp, hw.symm⟩
  | cons d' w =>
    obtain ⟨rfl, rfl⟩ : d = d' ∧ t = w ++ rest := by simpa using hw
    -- The piece goes on over the first character of `y`.
    have hcovered {read : List Char} (heq : c :: (x ++ d :: (w ++ rest)) = read ++ rest) :
        d ∈ read.tail := by
      have hall : (c :: (x ++ d :: w)) ++ rest = read ++ rest := by simpa using heq
      rw [← List.append_cancel_right hall]
      exact List.mem_append_right x List.mem_cons_self
    have hlonger : x ++ d :: (w ++ rest) ≠ rest := fun heq => by
      have hlength := congrArg List.length heq
      simp only [List.length_append, List.length_cons] at hlength
      omega
    have hpieced := pieced h
    generalize hcs : x ++ d :: (w ++ rest) = cs at hpieced h
    cases hpieced with
    | skip | newline => exact absurd hcs hlonger
    | comment hc => exact .inr ⟨hc, rfl, rfl⟩
    | escape hc hline =>
      rw [hline] at hcs
      rcases x with _ | ⟨e, x⟩
      · rcases hsep with rfl | rfl <;> exact absurd (List.cons.inj hcs).1 (by decide)
      · exact absurd ((List.cons.inj hcs).1 ▸ List.mem_cons_self) hx
    | @literal word _ _ _ q _ htext hword hq hopens =>
      obtain ⟨r, rfl⟩ := quoted?_ends ((hopens _ _ htext).symm.trans h)
      subst hcs
      have hall : (c :: x ++ d :: w) ++ rest = (word ++ q :: r ++ [q]) ++ rest := by simpa using htext
      have hend := List.append_cancel_right hall
      obtain ⟨w', e, hw'⟩ := (List.eq_nil_or_concat (d :: w)).resolve_left (List.cons_ne_nil d w)
      rw [List.concat_eq_append] at hw'
      rw [hw', ← List.append_assoc] at hend
      obtain rfl : e = q := by simpa using List.append_inj_right' hend rfl
      have hmem : e ∈ d :: w := hw' ▸ List.mem_append_right w' List.mem_cons_self
      have hquote := hy.quotes e (List.mem_append_left rest hmem)
      rw [hq] at hquote
      cases hquote
    | number htext hnumber =>
      subst hcs
      have hd' := hnumber d (List.mem_of_mem_tail (hcovered htext))
      rcases hsep with rfl | rfl <;> cases hd'
    | @name word _ hcs' hname =>
      rw [isIdentifier, Bool.and_eq_true, List.all_eq_true] at hname
      subst hcs
      have hcover := hcovered (show _ = (c :: word) ++ rest from congrArg (c :: ·) hcs')
      have hd' := hname.2 d hcover
      rcases hsep with rfl | rfl <;> cases hd'
    | @symbol read' _ hcs' hsymbol =>
      subst hcs
      have hmem := hcovered (show _ = (c :: read') ++ rest from congrArg (c :: ·) hcs')
      have hplain := List.all_eq_true.mp symbols_seamless _ hsymbol
      rw [Bool.and_eq_true, List.all_eq_true, List.all_eq_true] at hplain
      rcases hsep with rfl | rfl
      · exact absurd rfl (of_decide_eq_true (hplain.1 ' ' (List.mem_of_mem_tail hmem)))
      · exact absurd rfl (of_decide_eq_true (hplain.2 ':' hmem))

/-- How a text in front of a seam is cut: up to the seam, or up to a comment that goes on over it. -/
inductive Seamed (x y : List Char) (ss : List Snip) : Prop
  | whole {before after : List Snip} (hss : ss = before ++ after) (hbefore : Cut (x ++ y) before y)
      (hafter : Cut y after [])
  | comment {x' hidden : List Char} {before after : List Snip} {s : Snip}
      (hx : x = x' ++ '#' :: hidden) (hss : ss = before ++ s :: after) (hs : s.piece = .blank)
      (hbefore : Cut (x ++ y) before ('#' :: hidden ++ y))
      (hafter : Cut (y.dropWhile (· ≠ '\n')) after [])

theorem Cut.seam {x y : List Char} {ss : List Snip} (hx : '\n' ∉ x) (hy : Seam y)
    (h : Cut (x ++ y) ss []) : Seamed x y ss := by
  induction ss generalizing x with
  | nil =>
    obtain ⟨c, hc, -⟩ := hy.head
    obtain ⟨t, rfl⟩ := List.head?_eq_some_iff.mp hc
    have hnil := h.text_eq
    simp [textOf] at hnil
  | cons s ss ih =>
    cases x with
    | nil => exact .whole (List.nil_append _).symm (.done y) h
    | cons c x =>
      rw [List.mem_cons, not_or] at hx
      cases h with
      | @snip _ _ read rest _ p _ hpiece hread h =>
        rcases piece?_seam hx.2 hy hpiece with ⟨read', z, rfl, rfl⟩ | hcomment
        · cases List.append_cancel_right ((List.append_assoc ..).symm.trans hread)
          rw [List.mem_append, not_or] at hx
          cases ih hx.2.2 h with
          | @whole before after hss hbefore hafter =>
            subst hss
            exact .whole (show _ = (_ :: before) ++ after from rfl) (.snip hpiece hread hbefore)
              hafter
          | @comment x' hidden before after s hz hss hs hbefore hafter =>
            subst hz hss
            exact .comment (show _ = (c :: (read ++ x')) ++ '#' :: hidden by simp)
              (show _ = (_ :: before) ++ s :: after from rfl) hs (.snip hpiece hread hbefore) hafter
        · obtain ⟨rfl, rfl, rfl⟩ := hcomment
          have hdrop : (x ++ y).dropWhile (· ≠ '\n') = y.dropWhile (· ≠ '\n') :=
            List.dropWhile_append_of_pos fun d hd => decide_eq_true fun heq => hx.2 (heq ▸ hd)
          rw [hdrop] at h
          exact .comment (show _ = [] ++ '#' :: x from rfl) (List.nil_append _).symm rfl (.done _) h

end Stencil.Expr
