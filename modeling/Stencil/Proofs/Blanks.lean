import Stencil.Proofs.Frames
import Stencil.Proofs.OneLines

/-!
# Blanks between pieces

No word of an expression holds a blank, so behind a blank a piece begins, unless a string literal or
a comment goes on over it. Where no lexeme holds a line end and no comment ends at one, a text on one
line has the same lexemes as the text with its lines, wherever line ends count as blanks.
-/

namespace Stencil.Text

def blankCodes : List Nat :=
  [9, 10, 11, 12, 13, 28, 29, 30, 31, 32, 0x85, 0xa0, 0x1680, 0x2000, 0x2001, 0x2002, 0x2003, 0x2004,
    0x2005, 0x2006, 0x2007, 0x2008, 0x2009, 0x200a, 0x2028, 0x2029, 0x202f, 0x205f, 0x3000]

theorem mem_blankCodes {c : Char} (h : isBlank c) : c.toNat ∈ blankCodes := by
  unfold isBlank at h
  simp only [Bool.or_eq_true, Bool.and_eq_true, decide_eq_true_eq] at h
  simp only [blankCodes, List.mem_cons, List.not_mem_nil, or_false]
  omega

/-- What none of these characters is, no blank is. -/
theorem blank_apart {p : Char → Bool} (hp : blankCodes.all (fun n => !p (Char.ofNat n)) = true) {c : Char}
    (h : isBlank c) : p c = false := by
  have hc := List.all_eq_true.mp hp _ (mem_blankCodes h)
  rwa [Char.ofNat_toNat, Bool.not_eq_true'] at hc

theorem identifierStartTable_lacks : identifierStartTable.Lacks blankCodes := by
  unfold identifierStartTable
  dsimp only
  repeat refine .cons (by decide +kernel) (by decide +kernel) ?_
  exact nofun

theorem identifierRestTable_lacks : identifierRestTable.Lacks blankCodes := by
  unfold identifierRestTable
  dsimp only
  repeat refine .cons (by decide +kernel) (by decide +kernel) ?_
  exact nofun

/-- No blank is in a word of an expression. -/
theorem not_identifier_of_isBlank {c : Char} (h : isBlank c) :
    isIdentifierStart c = false ∧ isIdentifierRest c = false := by
  have hword : isAsciiWord c = false := blank_apart (by decide +kernel) h
  unfold isIdentifierStart isIdentifierRest
  rw [identifierStartTable_lacks.not_contains (mem_blankCodes h),
    identifierRestTable_lacks.not_contains (mem_blankCodes h), hword]
  rw [isAsciiWord, Bool.or_eq_false_iff, Bool.or_eq_false_iff] at hword
  simp [hword.1.1, hword.2]

open Grammar (plain)

theorem plain_blanks {bl : List Char} (hne : bl ≠ []) (hbl : ∀ b ∈ bl, isBlank b) :
    plain bl ≠ [] ∧ ∀ b ∈ plain bl, isBlank b := by
  refine ⟨?_, fun b hb => ?_⟩
  · obtain ⟨b, bl, rfl⟩ := List.exists_cons_of_ne_nil hne
    obtain ⟨cs, hcs⟩ := plain_head b bl
    rw [hcs]
    exact List.cons_ne_nil _ _
  · rcases mem_plain hb with hb | rfl
    · exact hbl b hb
    · rfl

/-- In front of a blank a text has the same lines as in front of a line end, but that a line end of two
characters may end there. -/
theorem plain_before_blank (x : List Char) {bl : List Char} (hne : bl ≠ []) (hbl : ∀ b ∈ bl, isBlank b)
    {c : Char} (hc : c ≠ '\n') (y z : List Char) :
    ∃ u bs, bs ≠ [] ∧ (∀ b ∈ bs, isBlank b) ∧ plain (x ++ '\n' :: z) = u ++ '\n' :: plain z ∧
      plain (x ++ (bl ++ c :: y)) = u ++ (bs ++ plain (c :: y)) := by
  by_cases hx : x.getLast? = some '\r'
  · obtain ⟨x, rfl⟩ := List.getLast?_eq_some_iff.mp hx
    obtain ⟨hne', hbl'⟩ := plain_blanks (List.cons_ne_nil '\r' bl)
      (List.forall_mem_cons.mpr ⟨rfl, hbl⟩)
    refine ⟨plain x, plain ('\r' :: bl), hne', hbl', ?_, ?_⟩
    · rw [List.append_assoc, List.singleton_append, plain_append_cons (by decide), plain_crlf]
    · rw [List.append_assoc, List.singleton_append, plain_append_cons (by decide), ← List.cons_append,
        plain_append_cons hc]
  · obtain ⟨hne', hbl'⟩ := plain_blanks hne hbl
    refine ⟨plain x, plain bl, hne', hbl', ?_, ?_⟩
    · rw [plain_append fun _ => hx, plain_cons (by simp)]
      rfl
    · rw [plain_append fun _ => hx, plain_append_cons hc]

end Stencil.Text

namespace Stencil.Expr

open Text (isBlank isAsciiLetter blank_apart not_identifier_of_isBlank)

section

variable {c b q : Char} {cs read rest x y : List Char} {k : LexemeKind} {p : Piece}
  {style : QuotePrefix} {ss : List Snip}

theorem Numeral.not_isNameChar_of_isQuote (hq : isQuote q) : Numeral.isNameChar q = false := by
  rw [isQuote, Bool.or_eq_true, decide_eq_true_eq, decide_eq_true_eq] at hq
  rcases hq with rfl | rfl <;> decide

/-- A character of lexemes that are no string literals. -/
def isBare (c : Char) : Bool :=
  Numeral.isNumberChar c || Text.isIdentifierStart c || Text.isIdentifierRest c || symbols.any (·.contains c)

theorem isBare_of_piece (h : piece? c cs = some (.lexeme k, rest)) (hread : cs = read ++ rest)
    (hk : ∀ style body, k ≠ .string style body) : ∀ d ∈ c :: read, isBare d := by
  intro d hd
  simp only [isBare, Bool.or_eq_true]
  cases pieced h with
  | literal => exact absurd rfl (hk _ _)
  | number htext hnumber =>
    rw [hread, ← List.cons_append] at htext
    cases List.append_cancel_right htext
    exact .inl (.inl (.inl (hnumber d hd)))
  | name hcs hword =>
    cases List.append_cancel_right (hread.symm.trans hcs)
    rw [isIdentifier, Bool.and_eq_true, List.all_eq_true] at hword
    rcases List.mem_cons.mp hd with rfl | hd
    · exact .inl (.inl (.inr hword.1))
    · exact .inl (.inr (hword.2 d hd))
  | symbol hcs hsymbol =>
    cases List.append_cancel_right (hread.symm.trans hcs)
    exact .inr (List.any_eq_true.mpr ⟨_, hsymbol, List.contains_iff_mem.mpr hd⟩)

theorem not_isBare_of_isBlank (hb : isBlank b) : isBare b = false := by
  rw [isBare, (not_identifier_of_isBlank hb).1, (not_identifier_of_isBlank hb).2, Bool.or_false,
    Bool.or_false]
  exact blank_apart (p := fun c => Numeral.isNumberChar c || symbols.any (·.contains c))
    (by decide +kernel) hb

theorem not_isBare_of_isQuote (hq : isQuote q) : isBare q = false := by
  rw [isQuote, Bool.or_eq_true, decide_eq_true_eq, decide_eq_true_eq] at hq
  rcases hq with rfl | rfl <;> decide +kernel

theorem not_isBlank_of_piece (h : piece? c cs = some (.lexeme k, rest)) (hread : cs = read ++ rest)
    (hk : ¬ ∃ style body, k = .string style body) : ∀ d ∈ c :: read, ¬ isBlank d := by
  intro d hd hblank
  have hbare := isBare_of_piece h hread (fun style body heq => hk ⟨style, body, heq⟩) d hd
  rw [not_isBare_of_isBlank hblank] at hbare
  cases hbare

/-- How a text goes on behind a blank: with a piece of its own, or in a string literal or a comment
that begins before. -/
inductive Behind (x : List Char) (b : Char) (y : List Char) (ss : List Snip) : Prop
  | seam {before after : List Snip} (hss : ss = before ++ after) (hafter : Cut y after [])
  | literal {front t rest : List Char} {c q : Char} {r : List Char} {style style' : QuotePrefix}
      {body : List Char} {before : List Snip} {s : Snip} (hx : x = front ++ c :: r)
      (hbefore : Cut (x ++ b :: y) before (c :: r ++ b :: y)) (hq : isQuote q) (hmem : q ∈ c :: r)
      (hopens : ∀ z, piece? c (r ++ z) = quoted? style (q :: (t ++ z)))
      (hquoted : quoted? style (q :: (t ++ b :: y)) = some (.lexeme (.string style' body), rest))
      (hover : rest.length ≤ y.length) (hs : s ∈ ss) (hpiece : s.piece = .lexeme (.string style' body))
  | comment {s : Snip} (hx : '#' ∈ x) (hs : s ∈ ss) (hhead : s.text.head? = some '#')

theorem Behind.snip {z : List Char} (h : Behind z b y ss)
    (hpiece : piece? c (read ++ (z ++ b :: y)) = some (p, z ++ b :: y)) :
    Behind (c :: (read ++ z)) b y (⟨c :: read, p⟩ :: ss) := by
  cases h with
  | seam hss hafter =>
    subst hss
    exact .seam (List.cons_append (a := _)).symm hafter
  | @literal front _ _ d _ r _ _ _ _ _ hx hbefore hq hmem hopens hquoted hover hs hkind =>
    subst hx
    have hx : c :: (read ++ (front ++ d :: r)) = c :: (read ++ front) ++ d :: r := by simp
    have hcut := hbefore.snip hpiece rfl
    rw [← List.append_assoc, ← List.cons_append] at hcut
    exact .literal hx hcut hq hmem hopens hquoted hover (List.mem_cons_of_mem _ hs) hkind
  | comment hx hs hhead =>
    exact .comment (List.mem_cons_of_mem c (List.mem_append_right read hx))
      (List.mem_cons_of_mem _ hs) hhead

theorem rest_of_blank (hb : isBlank b) (h : piece? b cs = some (p, rest)) : rest = cs := by
  obtain ⟨read, hread, -, -⟩ := piece?_exact h
  cases pieced h with
  | skip | newline => rfl
  | comment hc =>
    rw [hc] at hb
    cases hb
  | escape hc =>
    rw [hc] at hb
    cases hb
  | @literal word _ _ _ q _ htext hword hq =>
    have hmem : b = q ∨ b ∈ word := by
      cases word with
      | nil => exact .inl (List.cons.inj htext).1
      | cons d word => exact .inr ((List.cons.inj htext).1 ▸ List.mem_cons_self)
    rcases hmem with rfl | hmem
    · exact absurd (blank_apart (by decide +kernel) hb) (Bool.ne_false_iff.mpr hq)
    · exact absurd (blank_apart (by decide +kernel) hb) (Bool.ne_false_iff.mpr (hword b hmem))
  | number | name | symbol =>
    exact absurd hb (not_isBlank_of_piece h hread nofun b List.mem_cons_self)

/-- A piece that goes on over a blank is a string literal, a comment or a line that is continued. -/
theorem behind_of_piece {z : List Char} (hb : isBlank b)
    (h : piece? c (x ++ b :: (z ++ rest)) = some (p, rest)) (hcut : Cut rest ss []) :
    Behind (c :: x) b (z ++ rest) (⟨c :: (x ++ b :: z), p⟩ :: ss) := by
  have hread : x ++ b :: (z ++ rest) = (x ++ b :: z) ++ rest := by simp
  have hlonger : x ++ b :: (z ++ rest) ≠ rest := fun heq => by
    have hlength := congrArg List.length heq
    simp only [List.length_append, List.length_cons] at hlength
    omega
  have hpieced := pieced h
  generalize hcs : x ++ b :: (z ++ rest) = cs at hpieced
  cases hpieced with
  | skip | newline => exact absurd hcs hlonger
  | comment hc =>
    exact .comment (hc ▸ List.mem_cons_self) List.mem_cons_self (congrArg some hc)
  | escape hc hline =>
    have hshort : x ++ b :: z = ['\n'] :=
      List.append_cancel_right (hread.symm.trans (hcs.trans hline))
    obtain ⟨rfl, hb'⟩ : x = [] ∧ b :: z = ['\n'] := by
      cases x with
      | nil => exact ⟨rfl, hshort⟩
      | cons d x => simp at hshort
    cases hb'
    exact .seam (show _ = [_] ++ ss from rfl) hcut
  | @literal word t _ _ q _ htext hword hq hopens =>
    subst hcs
    -- The blank stands behind the opening quote.
    obtain ⟨t', ht⟩ : ∃ t', c :: x = word ++ q :: t' := by
      have htext' : (c :: x) ++ b :: (z ++ rest) = (word ++ [q]) ++ t := by simpa using htext
      rcases List.append_eq_append_iff.mp htext' with ⟨_ | ⟨d, a⟩, ha, hd⟩ | ⟨t', ht', -⟩
      · exact ⟨[], by rw [ha, List.append_nil]⟩
      · obtain rfl := (List.cons.inj hd).1
        have hmem : b ∈ word ++ [q] := ha ▸ List.mem_append_right _ List.mem_cons_self
        rcases List.mem_append.mp hmem with hmem | hmem
        · exact absurd (blank_apart (by decide +kernel) hb) (Bool.ne_false_iff.mpr (hword b hmem))
        · obtain rfl := List.mem_singleton.mp hmem
          exact absurd (blank_apart (by decide +kernel) hb) (Bool.ne_false_iff.mpr hq)
      · exact ⟨t', by rw [ht', List.append_assoc, List.singleton_append]⟩
    have hopens' (u : List Char) : piece? c (x ++ u) = quoted? _ (q :: (t' ++ u)) :=
      hopens _ _ (by rw [← List.cons_append, ht, List.append_assoc, List.cons_append])
    have hquoted := (hopens' (b :: (z ++ rest))).symm.trans h
    exact .literal (List.nil_append (c :: x)).symm (.done _) hq (ht ▸ by simp) hopens' hquoted
      (by simp) List.mem_cons_self rfl
  | number | name | symbol =>
    exact absurd hb (not_isBlank_of_piece h hread nofun b (by simp))

theorem Cut.behind_blank (hb : isBlank b) (h : Cut (x ++ b :: y) ss []) : Behind x b y ss := by
  induction ss generalizing x with
  | nil =>
    have hnil := h.text_eq
    simp [textOf] at hnil
  | cons s ss ih =>
    cases x with
    | nil =>
      cases h with
      | snip hpiece hread h => exact .seam (show _ = [_] ++ ss from rfl) (rest_of_blank hb hpiece ▸ h)
    | cons c x =>
      cases h with
      | @snip _ _ read rest _ p _ hpiece hread h =>
        have hlater {z : List Char} (hx : x = read ++ z) (hz : rest = z ++ b :: y) :
            Behind (c :: x) b y (⟨c :: read, p⟩ :: ss) := by
          subst hx hz
          exact (ih h).snip (hread ▸ hpiece)
        rcases List.append_eq_append_iff.mp hread with ⟨_ | ⟨b', z⟩, hx, hz⟩ | ⟨z, hx, hz⟩
        · exact hlater (z := []) (by rw [hx, List.append_nil, List.append_nil]) hz.symm
        · obtain ⟨rfl, rfl⟩ := List.cons.inj hz
          subst hx
          exact behind_of_piece hb hpiece h
        · exact hlater hx hz

theorem Cut.behind_blanks {bs : List Char} (hbs : ∀ b ∈ bs, isBlank b) (h : Cut (bs ++ y) ss []) :
    ∃ before after, ss = before ++ after ∧ Cut y after [] := by
  induction bs generalizing ss with
  | nil => exact ⟨[], ss, rfl, h⟩
  | cons b bs ih =>
    rw [List.forall_mem_cons] at hbs
    cases h.behind_blank (x := []) hbs.1 with
    | seam hss hafter =>
      obtain ⟨before, after, rfl, hcut⟩ := ih hbs.2 hafter
      exact ⟨_, after, by rw [hss, List.append_assoc], hcut⟩
    | literal hx => simp at hx
    | comment hx => cases hx

/-- A word in front of a blank is a name. -/
theorem Cut.word {t : List Char} (hletter : isAsciiLetter c)
    (hword : (c :: t).all Numeral.isNameChar) (hname : isIdentifier (c :: t)) (hb : isBlank b)
    (h : Cut (c :: (t ++ b :: y)) ss []) :
    ∃ after, ss = ⟨c :: t, .lexeme (.name (String.ofList (c :: t)))⟩ :: after ∧
      Cut (b :: y) after [] := by
  rw [List.all_eq_true] at hword
  cases h with
  | @snip _ _ read rest _ p ss hpiece hread h =>
  have hrun : word? (c :: t ++ b :: y) = some (p, rest) := by
    rwa [piece?, classOf_letter hletter] at hpiece
  by_cases hb' : Numeral.isNameChar b
  · exfalso
    have hsplit : y = y.takeWhile Numeral.isNameChar ++ y.dropWhile Numeral.isNameChar :=
      List.takeWhile_append_dropWhile.symm
    have hhead := Numeral.head_dropWhile (p := Numeral.isNameChar) y
    have hmore : ∀ d ∈ y.takeWhile Numeral.isNameChar, Numeral.isNameChar d :=
      fun d hd => List.mem_takeWhile_imp hd
    generalize y.takeWhile Numeral.isNameChar = more at hsplit hmore
    generalize y.dropWhile Numeral.isNameChar = after at hsplit hhead
    subst hsplit
    have hall : ∀ d ∈ c :: t ++ b :: more, Numeral.isNameChar d :=
      List.forall_mem_append.mpr ⟨hword, List.forall_mem_cons.mpr ⟨hb', hmore⟩⟩
    have hmem : b ∈ t ++ b :: more := List.mem_append_right t List.mem_cons_self
    rw [← List.cons_append, ← List.append_assoc, word?_append hall hhead] at hrun
    split at hrun
    · rename_i style hstyle
      unfold style? at hstyle
      split at hstyle
      · exact absurd (blank_apart (by decide +kernel) hb)
          (Bool.ne_false_iff.mpr (letters_of_style hstyle b (List.mem_cons_of_mem c hmem)))
      · cases hstyle
    · split at hrun
      · rename_i hname
        rw [List.cons_append, isIdentifier, Bool.and_eq_true, List.all_eq_true] at hname
        exact absurd (not_identifier_of_isBlank hb).2 (Bool.ne_false_iff.mpr (hname.2 b hmem))
      · cases hrun
  · have hhead : (b :: y).head?.any Numeral.isNameChar = false := Bool.eq_false_iff.mpr hb'
    rw [word?_append hword hhead] at hrun
    split at hrun
    · rename_i style hstyle
      obtain ⟨q, u, heq, hq, -⟩ := style?_eq_some hstyle
      exact absurd (blank_apart (by decide +kernel) hb)
        (Bool.ne_false_iff.mpr ((List.cons.inj heq).1 ▸ hq))
    · rw [if_pos hname] at hrun
      cases hrun
      cases List.append_cancel_right hread
      exact ⟨ss, rfl, h⟩

/-- A string literal that is closed in front of one text does not go on over another. -/
theorem quoted?_within {t y y' rest rest' : List Char} {p p' : Piece}
    (hy : y.head? ≠ some q) (hy' : q ∉ y') (h : quoted? style (q :: (t ++ y)) = some (p, rest))
    (h' : quoted? style (q :: (t ++ y')) = some (p', rest')) : y.length ≤ rest.length := by
  have hbody {quote u body body' r r' : List Char} (hne : quote ≠ []) (hquote : ∀ c ∈ quote, c = q)
      (h : bodyOf quote (u ++ y) = some (body, r)) (h' : bodyOf quote (u ++ y') = some (body', r')) :
      y.length ≤ r.length := by
    obtain ⟨heq, hexact⟩ := bodyOf_exact hne h'
    obtain ⟨z, rfl⟩ : ∃ z, u = body' ++ (quote ++ z) := by
      rw [← List.append_assoc] at heq
      rcases List.append_eq_append_iff.mp heq with ⟨_ | ⟨d, a⟩, ha, hd⟩ | ⟨z, hz, -⟩
      · exact ⟨[], by rw [List.append_nil, ha, List.append_nil]⟩
      · refine absurd ?_ hy'
        have hlast : (d :: a).getLast? = some q := by
          rw [← List.getLast?_append_of_ne_nil u (List.cons_ne_nil d a), ← ha,
            List.getLast?_append_of_ne_nil body' hne, List.getLast?_eq_some_getLast hne,
            hquote _ (List.getLast_mem hne)]
        exact hd ▸ List.mem_append_left r' (List.mem_of_getLast? hlast)
      · exact ⟨z, by rw [hz, List.append_assoc]⟩
    rw [List.append_assoc, List.append_assoc, hexact] at h
    cases h
    rw [List.length_append]
    exact Nat.le_add_left _ _
  have hhead : y'.head? ≠ some q := fun heq => hy' (List.mem_of_mem_head? heq)
  by_cases htriple : (t ++ y).head? = some q ∧ (t ++ y).tail.head? = some q
  · obtain ⟨u, rfl⟩ : ∃ u, t = q :: q :: u := by
      rcases t with _ | ⟨a, _ | ⟨d, u⟩⟩
      · exact absurd htriple.1 hy
      · exact absurd htriple.2 hy
      · obtain ⟨ha, hd⟩ := htriple
        cases ha
        cases hd
        exact ⟨u, rfl⟩
    rw [List.cons_append, List.cons_append, quoted?_triple] at h h'
    obtain ⟨⟨body, r⟩, hrun, heq⟩ := Option.map_eq_some_iff.mp h
    obtain ⟨⟨body', r'⟩, hrun', heq'⟩ := Option.map_eq_some_iff.mp h'
    cases heq
    exact hbody (List.cons_ne_nil q _) (by simp) hrun hrun'
  · have htriple' : ¬ ((t ++ y').head? = some q ∧ (t ++ y').tail.head? = some q) := by
      rcases t with _ | ⟨a, _ | ⟨d, u⟩⟩
      · exact fun h => hhead h.1
      · exact fun h => hhead h.2
      · exact htriple
    rw [quoted?_single htriple] at h
    rw [quoted?_single htriple'] at h'
    obtain ⟨⟨body, r⟩, hrun, heq⟩ := Option.map_eq_some_iff.mp h
    obtain ⟨⟨body', r'⟩, hrun', heq'⟩ := Option.map_eq_some_iff.mp h'
    cases heq
    exact hbody (List.cons_ne_nil q _) (by simp) hrun hrun'

/-- Where a text may end without its quotes, no string literal goes on over a blank. -/
theorem Cut.behind_closed {y' : List Char} {ss' : List Snip} (hb : isBlank b)
    (h : Cut (x ++ b :: y) ss []) (hcomment : ∀ s ∈ ss, s.text.head? ≠ some '#')
    (h' : Cut (x ++ y') ss' []) (hy' : Inert y') (hquotes : ∀ c ∈ y', isQuote c = false) :
    ∃ before after, ss = before ++ after ∧ Cut y after [] := by
  cases h.behind_blank hb with
  | seam hss hafter => exact ⟨_, _, hss, hafter⟩
  | comment hx hs hhead => exact absurd hhead (hcomment _ hs)
  | literal hx hbefore hq hmem hopens hquoted hover hs hpiece =>
    exfalso
    subst hx
    rw [List.append_assoc] at hbefore h'
    have hname : Numeral.isNameChar _ = false := Numeral.not_isNameChar_of_isQuote hq
    have hbefore' := hbefore.before_shared ⟨_, hmem, hname⟩ hy'
    obtain ⟨more, -, hmore⟩ := hbefore'.unique h'
    cases hmore with
    | snip hpiece' hread' hrest' =>
      have hblank : isQuote b = false := blank_apart (by decide +kernel) hb
      have hhead : (b :: y).head? ≠ some _ := fun heq => by
        rw [Option.some.inj heq, hq] at hblank
        cases hblank
      have hwithin := quoted?_within hhead (fun hmem' => by
        have hfalse := hquotes _ hmem'
        rw [hq] at hfalse
        cases hfalse) hquoted ((hopens _).symm.trans hpiece')
      rw [List.length_cons] at hwithin
      omega

end

end Stencil.Expr

namespace Stencil.Grammar

open Stencil.Expr
open Stencil.Text (isLineEnd spaced)

def Respaced (c d : Char) : Prop := c = d ∨ isLineEnd c ∧ d = ' '

theorem respaced_spaced (u : List Char) : List.Forall₂ Respaced u (u.map spaced) := by
  refine List.forall₂_map_right_iff.mpr (List.forall₂_same.mpr fun c _ => ?_)
  by_cases hc : isLineEnd c
  · exact .inr ⟨hc, Text.spaced_lineEnd hc⟩
  · exact .inl (Text.spaced_of_not hc).symm

theorem respaced_refl (u : List Char) : List.Forall₂ Respaced u u :=
  List.forall₂_same.mpr fun _ _ => .inl rfl

/-- The piece is no comment, and if it is a lexeme, no line end stands in it. -/
structure Calm (s : Snip) : Prop where
  comment : s.text.head? ≠ some '#'
  lines : ∀ k, s.piece = .lexeme k → ∀ c ∈ s.text, ¬ isLineEnd c

section

variable {u u' v rest : List Char}

theorem eq_of_respaced (h : List.Forall₂ Respaced v u) (hv : ∀ c ∈ v, ¬ isLineEnd c) : v = u := by
  induction h with
  | nil => rfl
  | cons hc _ ih =>
    rw [List.forall_mem_cons] at hv
    rw [ih hv.2, hc.resolve_right fun hline => hv.1 hline.1]

theorem respaced_append (h : List.Forall₂ Respaced (v ++ rest) u) :
    ∃ v' rest', u = v' ++ rest' ∧ List.Forall₂ Respaced v v' ∧ List.Forall₂ Respaced rest rest' := by
  induction v generalizing u with
  | nil => exact ⟨[], u, rfl, .nil, h⟩
  | cons c v ih =>
    cases h with
    | cons hc h =>
      obtain ⟨v', rest', rfl, hv, hrest⟩ := ih h
      exact ⟨_ :: v', rest', rfl, .cons hc hv, hrest⟩

theorem gluedWords_on_line : Numeral.gluedWords.all fun w => w.all fun c => !isLineEnd c := by
  decide

theorem follows_of_respaced (h : List.Forall₂ Respaced u u') : Follows u u' where
  shared := by
    induction h with
    | nil => exact ⟨[], [], [], rfl, rfl, nofun⟩
    | @cons c d u u' hc h ih =>
      rcases hc with rfl | ⟨-, rfl⟩
      · obtain ⟨z, y, y', rfl, rfl, hy⟩ := ih
        exact ⟨c :: z, y, y', rfl, rfl, hy⟩
      · exact ⟨[], c :: u, ' ' :: u', rfl, rfl, fun d hd => .inl (Option.some.inj hd).symm⟩
  mayEnd := by
    cases h with
    | nil => exact id
    | @cons c d u u' hc h =>
      have hcons (c : Char) (u : List Char) : Numeral.mayEnd (c :: u) =
          (Numeral.gluedWords.any (·.isPrefixOf (c :: u)) || !Numeral.isNameChar c) := rfl
      rw [hcons, hcons, Bool.or_eq_true, Bool.or_eq_true, List.any_eq_true, List.any_eq_true]
      rcases hc with rfl | ⟨-, rfl⟩
      · rintro (⟨w, hw, hprefix⟩ | hname)
        · rw [List.isPrefixOf_iff_prefix] at hprefix
          obtain ⟨t, ht⟩ := hprefix
          have hall : List.Forall₂ Respaced (w ++ t) (c :: u') := ht ▸ .cons (.inl rfl) h
          obtain ⟨w', t', heq, hw', -⟩ := respaced_append hall
          have hplain := List.all_eq_true.mp gluedWords_on_line w hw
          rw [List.all_eq_true] at hplain
          obtain rfl := eq_of_respaced hw' fun e he => by simpa using hplain e he
          refine .inl ⟨w, hw, ?_⟩
          rw [List.isPrefixOf_iff_prefix, heq]
          exact List.prefix_append w t'
        · exact .inr hname
      · exact fun _ => .inr rfl

end

/-- What is cut on one line is cut with its lines, into the same lexemes. -/
theorem cut_respaced {u u' after : List Char} {ss ss' : List Snip} (h : List.Forall₂ Respaced u u')
    (hcut : Cut u ss []) (hcut' : Cut u' ss' after) (hcalm : ∀ s ∈ ss, Calm s) :
    ∃ ss₁ ss₂ rest, ss = ss₁ ++ ss₂ ∧ Cut u ss₁ rest ∧ Cut rest ss₂ [] ∧
      List.Forall₂ Respaced rest after ∧ kindsOf ss₁ = kindsOf ss' := by
  induction hcut' generalizing u ss with
  | done => exact ⟨[], ss, u, rfl, .done u, hcut, h, rfl⟩
  | @snip c' cs' read' rest' after p' ss' hpiece' hread' hcut' ih =>
    cases h with
    | @cons c _ cs _ hc h =>
    cases hcut with
    | @snip _ _ read rest _ p ss hpiece hread hcut =>
    rw [List.forall_mem_cons] at hcalm
    have hnext (hrest : List.Forall₂ Respaced rest rest') (hkinds : kindsOfPiece p = kindsOfPiece p') :
        ∃ ss₁ ss₂ end_, (⟨c :: read, p⟩ : Snip) :: ss = ss₁ ++ ss₂ ∧ Cut (c :: cs) ss₁ end_ ∧
          Cut end_ ss₂ [] ∧ List.Forall₂ Respaced end_ after ∧
            kindsOf ss₁ = kindsOf (⟨c' :: read', p'⟩ :: ss') := by
      obtain ⟨ss₁, ss₂, end_, rfl, hcut₁, hcut₂, hend, hsame⟩ := ih hrest hcut hcalm.2
      refine ⟨⟨c :: read, p⟩ :: ss₁, ss₂, end_, rfl, .snip hpiece hread hcut₁, hcut₂, hend, ?_⟩
      rw [kindsOf, kindsOf, hsame, hkinds]
    have hcomment : c ≠ '#' := fun heq => hcalm.1.comment (congrArg some heq)
    cases p with
    | lexeme k =>
      have hlines := hcalm.1.lines k rfl
      rw [List.forall_mem_cons] at hlines
      obtain rfl : c = c' := hc.resolve_right fun hline => hlines.1 hline.1
      rw [hread] at h
      obtain ⟨v, rest₂, rfl, hv, hrest⟩ := respaced_append h
      obtain rfl := eq_of_respaced hv hlines.2
      obtain ⟨read₀, hread₀, -, hexact⟩ := piece?_exact hpiece
      cases List.append_cancel_right (hread₀.symm.trans hread)
      have hsame := hexact rest₂ (follows_of_respaced hrest)
        (fun hclass => absurd (classOf_comment hclass) hcomment) fun hclass => by
          rw [piece?, hclass, pieceOf] at hpiece
          split at hpiece <;> cases hpiece
      cases hpiece'.symm.trans hsame
      exact hnext hrest rfl
    | newline =>
      obtain ⟨rfl, rfl⟩ := newline_of_piece hpiece
      rcases hc with rfl | ⟨-, rfl⟩ <;> cases hpiece'
      · exact hnext h rfl
      · exact hnext h rfl
    | blank =>
      rcases blank_of_piece hpiece with ⟨hskip, rfl⟩ | ⟨rfl, -⟩ | ⟨rfl, rfl⟩
      · have hskip' : c' ∈ [' ', '\t', '\x0c'] := by
          rcases hc with rfl | ⟨-, rfl⟩
          · exact hskip
          · exact List.mem_cons_self
        simp only [List.mem_cons, List.not_mem_nil, or_false] at hskip'
        rcases hskip' with rfl | rfl | rfl <;> cases hpiece'
        · exact hnext h rfl
        · exact hnext h rfl
        · exact hnext h rfl
      · exact absurd rfl hcomment
      · obtain rfl : '\\' = c' := hc.resolve_right fun hline => absurd hline.1 (by decide)
        -- A line that is continued is none on one line.
        cases h with
        | @cons _ d _ rest₂ hd h =>
        rcases hd with rfl | ⟨-, rfl⟩
        · have hrun : pieceOf '\\' ('\n' :: rest₂) .escape = some (p', rest') := hpiece'
          rw [pieceOf] at hrun
          split at hrun <;> cases hrun
          exact hnext h rfl
        · have hrun : pieceOf '\\' (' ' :: rest₂) .escape = some (p', rest') := hpiece'
          cases hrun

end Stencil.Grammar
