import Stencil.Proofs.Lexing

/-!
# Texts cut into pieces

The lexemes of a text are those of its pieces, as far as the brackets settle them. A text can be cut
in one way only, and how it is cut does not depend on the text behind it.
-/

namespace Stencil.Expr

structure Snip where
  text : List Char
  piece : Piece

/-- The text is cut into these pieces up to `after`. -/
inductive Cut : List Char → List Snip → List Char → Prop
  | done (text : List Char) : Cut text [] text
  | snip {c : Char} {cs r rest after : List Char} {p : Piece} {ss : List Snip}
      (hpiece : piece? c cs = some (p, rest)) (hread : cs = r ++ rest) (h : Cut rest ss after) :
      Cut (c :: cs) (⟨c :: r, p⟩ :: ss) after

def textOf : List Snip → List Char
  | [] => []
  | s :: ss => s.text ++ textOf ss

/-- The lexeme that a piece gives, if it gives one, in front of the others. -/
def emit (start stop : Nat) : Option LexemeKind → List Lexeme → List Lexeme
  | some k, ls => ⟨k, start, stop⟩ :: ls
  | none, ls => ls

/-- The lexemes of pieces, with the first piece at a given place and the brackets to be closed. -/
def settleAll : Nat → List Char → List Snip → Option (List Lexeme × List Char)
  | _, pending, [] => some ([], pending)
  | n, pending, s :: ss =>
    (settle pending s.piece).bind fun t =>
      (settleAll (n + s.text.length) t.2 ss).map fun r =>
        (emit n (n + s.text.length) t.1 r.1, r.2)

@[simp] theorem textOf_append (ss ss' : List Snip) : textOf (ss ++ ss') = textOf ss ++ textOf ss' := by
  induction ss with
  | nil => rfl
  | cons s ss ih => simp [textOf, ih]

namespace Cut

variable {text rest after : List Char} {ss ss' : List Snip}

theorem text_eq (h : Cut text ss after) : text = textOf ss ++ after := by
  induction h with
  | done => rfl
  | snip _ hread _ ih => rw [hread, ih, textOf, List.append_assoc, List.cons_append]

theorem append (h : Cut text ss rest) (h' : Cut rest ss' after) : Cut text (ss ++ ss') after := by
  induction h with
  | done => exact h'
  | snip hpiece hread _ ih => exact .snip hpiece hread (ih h')

theorem split (h : Cut text (ss ++ ss') after) : ∃ rest, Cut text ss rest ∧ Cut rest ss' after := by
  induction ss generalizing text with
  | nil => exact ⟨text, .done text, h⟩
  | cons s ss ih =>
    cases h with
    | snip hpiece hread h =>
      obtain ⟨rest, h, h'⟩ := ih h
      exact ⟨rest, .snip hpiece hread h, h'⟩

theorem split_at (h : Cut text ss rest) (h' : Cut text ss' after) (hle : after.length ≤ rest.length) :
    ∃ more, ss' = ss ++ more ∧ Cut rest more after := by
  induction h generalizing ss' with
  | done => exact ⟨ss', rfl, h'⟩
  | snip hpiece hread h ih =>
    cases h' with
    | done =>
      have hlength := congrArg List.length (hread.trans (congrArg _ h.text_eq))
      simp only [List.length_append, List.length_cons] at hlength hle
      omega
    | snip hpiece' hread' h' =>
      cases hpiece.symm.trans hpiece'
      cases List.append_cancel_right (hread.symm.trans hread')
      obtain ⟨more, rfl, hmore⟩ := ih h' hle
      exact ⟨more, rfl, hmore⟩

theorem unique (h : Cut text ss rest) (h' : Cut text ss' []) :
    ∃ more, ss' = ss ++ more ∧ Cut rest more [] :=
  h.split_at h' (Nat.zero_le _)

end Cut

def numbered : Nat → List Char → List Mark
  | _, [] => []
  | n, c :: cs => ⟨n, c⟩ :: numbered (n + 1) cs

@[simp] theorem chars_numbered (n : Nat) (cs : List Char) : chars (numbered n cs) = cs := by
  induction cs generalizing n with
  | nil => rfl
  | cons c cs ih => exact congrArg (c :: ·) (ih (n + 1))

theorem numbered_append (n : Nat) (cs ds : List Char) :
    numbered n (cs ++ ds) = numbered n cs ++ numbered (n + cs.length) ds := by
  induction cs generalizing n with
  | nil => rfl
  | cons c cs ih =>
    rw [List.cons_append, numbered, numbered, ih, List.length_cons, List.cons_append,
      Nat.add_right_comm, Nat.add_assoc]

theorem length_numbered (n : Nat) (cs : List Char) : (numbered n cs).length = cs.length := by
  rw [← length_chars, chars_numbered]

theorem stopOf_numbered (n : Nat) (c : Char) (cs : List Char) :
    stopOf n (numbered n (c :: cs)) = n + (c :: cs).length := by
  rcases List.eq_nil_or_concat cs with rfl | ⟨ds, d, rfl⟩
  · rfl
  · have hlast : (numbered n (c :: (ds ++ [d]))).getLast? = some ⟨n + (c :: ds).length, d⟩ := by
      rw [← List.cons_append, numbered_append]
      exact List.getLast?_concat
    rw [List.concat_eq_append, stopOf, hlast]
    simp only [List.length_cons, List.length_append, List.length_nil]
    omega

theorem marks_eq_numbered {text : List Char} (htext : '\r' ∉ text) (n : Nat) :
    marks n text = numbered n text := by
  induction text generalizing n with
  | nil => rfl
  | cons c cs ih =>
    rw [List.mem_cons, not_or] at htext
    rw [marks, numbered, ih htext.2, if_neg (Ne.symm htext.1)]
    rintro _ rfl
    exact absurd rfl htext.1

theorem length_marks_le (n : Nat) (text : List Char) : (marks n text).length ≤ text.length := by
  fun_induction marks n text with
  | case1 => exact Nat.le_refl _
  | case2 n cs ih | case3 n c cs _ ih =>
    simp only [List.length_cons]
    omega

theorem drop_marks {ms : List Mark} {read rest : List Char} (h : chars ms = read ++ rest) :
    chars (ms.drop (ms.length - rest.length)) = rest := by
  rw [chars_drop, ← length_chars, h, List.length_append, Nat.add_sub_cancel, List.drop_left]

theorem placed_numbered {n : Nat} {c : Char} {read rest : List Char} (kind : LexemeKind)
    (ls : List Lexeme) :
    placed ⟨n, c⟩ (numbered (n + 1) (read ++ rest)) rest.length (some kind) ls =
      ⟨kind, n, n + (c :: read).length⟩ :: ls := by
  have htake : (numbered n (c :: (read ++ rest))).take
      ((numbered (n + 1) (read ++ rest)).length + 1 - rest.length) = numbered n (c :: read) := by
    rw [length_numbered, List.length_append, ← List.cons_append, numbered_append]
    refine List.take_left' ?_
    rw [length_numbered, List.length_cons]
    omega
  rw [placed, ← numbered, htake, stopOf_numbered]

/-- What is lexed is cut, and the lexemes are those of the pieces. -/
theorem cut_of_lexFrom {fuel : Nat} {pending : List Char} {ms : List Mark} {ls : List Lexeme}
    (h : lexFrom fuel pending ms = some ls) (n : Nat) :
    ∃ ss ls', Cut (chars ms) ss [] ∧ settleAll n pending ss = some (ls', []) ∧
      ls'.map (·.kind) = ls.map (·.kind) ∧ (ms = numbered n (chars ms) → ls' = ls) := by
  induction fuel generalizing pending ms ls n with
  | zero => cases h
  | succ fuel ih =>
    cases ms with
    | nil =>
      unfold lexFrom at h
      split at h
      · rename_i hpending
        cases h
        rw [List.isEmpty_iff] at hpending
        subst hpending
        exact ⟨[], [], .done [], rfl, rfl, fun _ => rfl⟩
      · cases h
    | cons m ms =>
      rw [lexFrom_cons] at h
      obtain ⟨⟨p, rest⟩, hpiece, h⟩ := Option.bind_eq_some_iff.mp h
      obtain ⟨⟨kind, next⟩, hsettle, h⟩ := Option.bind_eq_some_iff.mp h
      obtain ⟨ls, hrest, rfl⟩ := Option.map_eq_some_iff.mp h
      obtain ⟨read, hread, -, -⟩ := piece?_exact hpiece
      obtain ⟨ss, ls', hcut, hall, hkinds, hsame⟩ := ih hrest (n + (m.char :: read).length)
      rw [drop_marks hread] at hcut hsame
      refine ⟨⟨m.char :: read, p⟩ :: ss, emit n (n + (m.char :: read).length) kind ls',
        .snip hpiece hread hcut, ?_, ?_, ?_⟩
      · rw [settleAll, hsettle, Option.bind_some, hall, Option.map_some]
      · cases kind with
        | none => exact hkinds
        | some k => exact congrArg (k :: ·) hkinds
      · rw [show chars (m :: ms) = m.char :: chars ms from rfl, hread]
        intro hms
        rw [numbered] at hms
        injection hms with hm hms
        have hdrop : ms.drop (ms.length - rest.length) =
            numbered (n + (m.char :: read).length) rest := by
          rw [hms, numbered_append, List.length_append, length_numbered, length_numbered,
            Nat.add_sub_cancel, List.drop_left' (length_numbered _ _), List.length_cons]
          congr 1
          omega
        rw [hsame hdrop]
        cases kind with
        | none => rfl
        | some k =>
          rw [hm, hms]
          exact (placed_numbered k ls).symm

theorem lexFrom_of_cut {fuel n : Nat} {pending : List Char} {ms : List Mark} {ss : List Snip}
    {ls : List Lexeme} (h : Cut (chars ms) ss []) (hall : settleAll n pending ss = some (ls, []))
    (hfuel : ms.length < fuel) :
    ∃ ls', lexFrom fuel pending ms = some ls' ∧ ls'.map (·.kind) = ls.map (·.kind) := by
  induction fuel generalizing n pending ms ss ls with
  | zero => exact absurd hfuel (Nat.not_lt_zero _)
  | succ fuel ih =>
    cases ms with
    | nil =>
      cases h
      cases hall
      exact ⟨[], rfl, rfl⟩
    | cons m ms =>
      have hchars : chars (m :: ms) = m.char :: chars ms := rfl
      rw [hchars] at h
      cases h with
      | @snip c cs read rest after p ss hpiece hread h =>
        rw [settleAll] at hall
        obtain ⟨⟨kind, next⟩, hsettle, hall⟩ := Option.bind_eq_some_iff.mp hall
        obtain ⟨⟨ls, left⟩, hrest, heq⟩ := Option.map_eq_some_iff.mp hall
        cases heq
        have hlength : (ms.drop (ms.length - rest.length)).length < fuel := by
          rw [List.length_drop]
          rw [List.length_cons] at hfuel
          omega
        rw [← drop_marks hread] at h
        obtain ⟨ls', hlex, hkinds⟩ := ih h hrest hlength
        rw [lexFrom_cons, hpiece, Option.bind_some, hsettle, Option.bind_some, hlex,
          Option.map_some]
        refine ⟨_, rfl, ?_⟩
        cases kind with
        | none => exact hkinds
        | some k => exact congrArg (k :: ·) hkinds

theorem length_word_le {c : Char} {cs rest : List Char} {p : Piece}
    (h : word? (c :: cs) = some (p, rest)) (hc : Numeral.isNameChar c) :
    rest.length ≤ (cs.dropWhile Numeral.isNameChar).length := by
  unfold word? at h
  dsimp only at h
  rw [Numeral.drop_takeWhile, List.dropWhile_cons_of_pos hc] at h
  cases hstyle : style? ((c :: cs).takeWhile Numeral.isNameChar)
      (cs.dropWhile Numeral.isNameChar) with
  | none =>
    rw [hstyle] at h
    dsimp only at h
    split at h
    · cases h
      exact Nat.le_refl _
    · cases h
  | some style =>
    rw [hstyle] at h
    obtain ⟨q, t, hrest, hq, -⟩ := style?_eq_some hstyle
    rw [hrest] at h ⊢
    obtain ⟨body, read, -, -, rfl, -⟩ := quoted?_exact hq h
    simp only [List.length_cons, List.length_append]
    omega

theorem gluedWords_plain : Numeral.gluedWords.all fun w =>
    w.all Numeral.isNameChar && w.head?.any fun c => "aefoni".toList.contains c := by
  decide

/-- A word that may follow a number is one piece, so pieces end in front of it or behind it. -/
theorem Cut.gluedWord {c : Char} {t y w : List Char} {ss : List Snip} (h : Cut (c :: (t ++ y)) ss y)
    (hw : w ∈ Numeral.gluedWords) ( hprefix : w <+: c :: (t ++ y)) : w <+: c :: t := by
  have hplain := List.all_eq_true.mp gluedWords_plain w hw
  rw [Bool.and_eq_true, List.all_eq_true] at hplain
  obtain ⟨d, w, rfl⟩ : ∃ d w', w = d :: w' := by
    refine List.exists_cons_of_ne_nil ?_
    rintro rfl
    exact absurd hplain.2 (by decide)
  obtain ⟨rfl, hprefix'⟩ := List.cons_prefix_cons.mp hprefix
  have hd : d ∈ "aefoni".toList := List.contains_iff_mem.mp hplain.2
  have hname : Numeral.isNameChar d := hplain.1 d List.mem_cons_self
  cases ss with
  | nil =>
    have hlength := congrArg List.length h.text_eq
    simp only [textOf, List.length_cons, List.length_append, List.length_nil] at hlength
    omega
  | cons s ss =>
    cases h with
    | @snip _ _ read rest _ p _ hpiece hread h =>
      have hclass : classOf d (t ++ y) = .word := by
        rcases (by simpa using hd : d = 'a' ∨ d = 'e' ∨ d = 'f' ∨ d = 'o' ∨ d = 'n' ∨ d = 'i') with
          rfl | rfl | rfl | rfl | rfl | rfl <;> rfl
      rw [piece?, hclass] at hpiece
      have hle := length_word_le hpiece hname
      have hrest := congrArg List.length h.text_eq
      obtain ⟨u, hu⟩ := hprefix'
      have hall : ∀ e ∈ w, Numeral.isNameChar e := fun e he =>
        hplain.1 e (List.mem_cons_of_mem d he)
      rw [← hu, List.dropWhile_append_of_pos hall] at hle
      have hdrop := (List.dropWhile_suffix (p := Numeral.isNameChar) (l := u)).length_le
      have hlength := congrArg List.length hu
      simp only [List.length_append] at hrest hlength
      refine List.cons_prefix_cons.mpr ⟨rfl, ?_⟩
      exact List.prefix_of_prefix_length_le ⟨u, hu⟩ (List.prefix_append t y) (by omega)

theorem mayEnd_of_inert {y : List Char} (hy : Inert y) : Numeral.mayEnd y := by
  cases y with
  | nil => rfl
  | cons c y =>
    unfold Numeral.mayEnd
    rw [Bool.or_eq_true]
    rcases hy c rfl with rfl | rfl <;> exact .inr rfl

/-- What is cut up to a place may stand in front of any inert text there. -/
theorem Cut.follows {z y y' : List Char} {ss : List Snip} (h : Cut (z ++ y) ss y) (hy : Inert y') :
    Follows (z ++ y) (z ++ y') where
  shared := ⟨z, y, y', rfl, rfl, hy⟩
  mayEnd := by
    cases z with
    | nil => exact fun _ => mayEnd_of_inert hy
    | cons c t =>
      have hcons (u : List Char) : Numeral.mayEnd (c :: u) =
          (Numeral.gluedWords.any (·.isPrefixOf (c :: u)) || !Numeral.isNameChar c) := rfl
      rw [List.cons_append, List.cons_append, hcons, hcons, Bool.or_eq_true, Bool.or_eq_true,
        List.any_eq_true, List.any_eq_true]
      rintro (⟨w, hw, hprefix⟩ | hname)
      · rw [List.isPrefixOf_iff_prefix] at hprefix
        refine .inl ⟨w, hw, ?_⟩
        rw [List.isPrefixOf_iff_prefix, ← List.cons_append]
        exact (h.gluedWord hw hprefix).trans (List.prefix_append _ _)
      · exact .inr hname

theorem classOf_comment {c : Char} {cs : List Char} (h : classOf c cs = .comment) : c = '#' := by
  unfold classOf at h
  split_ifs at h
  assumption

theorem rest_of_comment {c : Char} {cs rest : List Char} {p : Piece} (hclass : classOf c cs = .comment)
    (h : piece? c cs = some (p, rest)) : rest = [] ∨ rest.head? = some '\n' := by
  rw [piece?, hclass] at h
  cases h
  have hhead := List.head?_dropWhile_not (· ≠ '\n') cs
  cases hrest : cs.dropWhile (· ≠ '\n') with
  | nil => exact .inl rfl
  | cons d rest =>
    rw [hrest] at hhead
    exact .inr (by simpa using hhead)

theorem read_of_escape {c : Char} {cs read rest : List Char} {p : Piece}
    (hclass : classOf c cs = .escape) (h : piece? c cs = some (p, rest)) (hread : cs = read ++ rest) :
    read = ['\n'] := by
  rw [piece?, hclass, pieceOf] at h
  split at h
  · rename_i hline
    cases h
    rw [Bool.and_eq_true, decide_eq_true_eq] at hline
    obtain ⟨rest, rfl⟩ := List.head?_eq_some_iff.mp hline.1
    exact (List.append_cancel_right (hread.symm.trans (List.singleton_append (l := rest)).symm))
  · cases h

/-- Up to a place a text is cut alike whatever stands behind it, if that is inert. -/
theorem Cut.before {x y y' : List Char} {ss : List Snip} (h : Cut (x ++ y) ss y) (hy : Inert y')
    (hline : '#' ∈ x → y = [] ∨ y.head? = some '\n' → y' = [] ∨ y'.head? = some '\n')
    (hescape : y' = [] → '\n' ∉ x) : Cut (x ++ y') ss y' := by
  induction ss generalizing x with
  | nil =>
    obtain rfl : x = [] := List.append_cancel_right (h.text_eq : x ++ y = [] ++ y)
    exact .done y'
  | cons s ss ih =>
    cases x with
    | nil =>
      have hlength := congrArg List.length h.text_eq
      cases h
      simp only [textOf, List.length_append, List.length_cons, List.nil_append] at hlength
      omega
    | cons c t =>
      cases h with
      | @snip _ _ read rest _ p _ hpiece hread h =>
        obtain ⟨read', hread', -, hexact⟩ := piece?_exact hpiece
        cases List.append_cancel_right (hread'.symm.trans hread)
        obtain ⟨z, rfl⟩ : ∃ z, rest = z ++ y := ⟨_, h.text_eq⟩
        rw [← List.append_assoc] at hread
        cases List.append_cancel_right hread
        have hmem {d : Char} (hd : d ∈ read ∨ d ∈ z) : d ∈ c :: (read ++ z) :=
          List.mem_cons_of_mem c (List.mem_append.mpr hd)
        rw [show c :: (read ++ z) ++ y' = c :: (read ++ (z ++ y')) by simp]
        refine .snip (hexact (z ++ y') (h.follows hy) ?_ ?_) rfl
          (ih h (fun hcomment => hline (hmem (.inr hcomment))) fun hempty hz =>
            hescape hempty (hmem (.inr hz)))
        · intro hclass
          have hrest := rest_of_comment hclass hpiece
          cases z with
          | nil => exact hline (classOf_comment hclass ▸ List.mem_cons_self) hrest
          | cons d z => exact hrest.imp nofun id
        · intro hclass hempty
          obtain ⟨rfl, rfl⟩ := List.append_eq_nil_iff.mp hempty
          cases read_of_escape hclass hpiece hread'
          exact hescape rfl (hmem (.inl List.mem_cons_self))

/-- Behind a character that belongs to no name an inert text may stand in place of another. -/
theorem follows_of_stop {v y y' : List Char} (hstop : ∃ c ∈ v, Numeral.isNameChar c = false)
    (hy : Inert y') : Follows (v ++ y) (v ++ y') where
  shared := ⟨v, y, y', rfl, rfl, hy⟩
  mayEnd := by
    obtain ⟨c, hc, hname⟩ := hstop
    obtain ⟨a, b, rfl⟩ := List.append_of_mem hc
    -- A word that may follow a number ends in front of that character.
    have hwords (u : List Char) {w : List Char} (hw : w ∈ Numeral.gluedWords)
        ( hprefix : w <+: a ++ c :: b ++ u) : w <+: a := by
      have hplain := List.all_eq_true.mp gluedWords_plain w hw
      rw [Bool.and_eq_true, List.all_eq_true] at hplain
      refine List.prefix_of_prefix_length_le hprefix
        ((List.prefix_append a (c :: b)).trans (List.prefix_append _ u)) (Nat.le_of_not_lt fun hlt => ?_)
      obtain ⟨rest, hrest⟩ := hprefix
      have hget : w[a.length]? = some c := by
        have hleft : (w ++ rest)[a.length]? = w[a.length]? := List.getElem?_append_left hlt
        rw [← hleft, hrest, List.append_assoc,
          List.getElem?_append_right (Nat.le_refl _), Nat.sub_self]
        rfl
      rw [hplain.1 c (List.mem_of_getElem? hget)] at hname
      cases hname
    have hhead (u : List Char) : Numeral.mayEnd (a ++ c :: b ++ u) =
        (Numeral.gluedWords.any (·.isPrefixOf (a ++ c :: b ++ u)) ||
          !(Numeral.isNameChar ((a ++ [c]).head (by simp)))) := by
      cases a <;> rfl
    rw [hhead, hhead, Bool.or_eq_true, Bool.or_eq_true, List.any_eq_true, List.any_eq_true]
    rintro (⟨w, hw, hprefix⟩ | hname)
    · rw [List.isPrefixOf_iff_prefix] at hprefix
      refine .inl ⟨w, hw, ?_⟩
      rw [List.isPrefixOf_iff_prefix, List.append_assoc]
      exact (hwords y hw hprefix).trans (List.prefix_append _ _)
    · exact .inr hname

/-- Up to a place a text is cut alike whatever stands somewhere behind it. -/
theorem Cut.before_shared {x w y y' : List Char} {ss : List Snip}
    (h : Cut (x ++ (w ++ y)) ss (w ++ y)) (hw : ∃ c ∈ w, Numeral.isNameChar c = false)
    (hy : Inert y') : Cut (x ++ (w ++ y')) ss (w ++ y') := by
  obtain ⟨d, w, rfl⟩ : ∃ d w', w = d :: w' := by
    obtain ⟨c, hc, -⟩ := hw
    exact List.exists_cons_of_ne_nil (List.ne_nil_of_mem hc)
  induction ss generalizing x with
  | nil =>
    obtain rfl : x = [] := List.append_cancel_right (h.text_eq : x ++ _ = [] ++ _)
    exact .done _
  | cons s ss ih =>
    cases x with
    | nil =>
      have hlength := congrArg List.length h.text_eq
      cases h
      simp only [textOf, List.length_append, List.length_cons, List.nil_append] at hlength
      omega
    | cons c t =>
      cases h with
      | @snip _ _ read rest _ p _ hpiece hread h =>
        obtain ⟨read', hread', -, hexact⟩ := piece?_exact hpiece
        cases List.append_cancel_right (hread'.symm.trans hread)
        obtain ⟨z, rfl⟩ : ∃ z, rest = z ++ (d :: w ++ y) := ⟨_, h.text_eq⟩
        rw [← List.append_assoc] at hread
        cases List.append_cancel_right hread
        have hfollows : Follows (z ++ (d :: w ++ y)) (z ++ (d :: w ++ y')) := by
          obtain ⟨c, hc, hname⟩ := hw
          have hfollows := follows_of_stop (v := z ++ d :: w) (y := y)
            ⟨c, List.mem_append_right z hc, hname⟩ hy
          rwa [List.append_assoc, List.append_assoc] at hfollows
        rw [show c :: (read ++ z) ++ (d :: w ++ y') = c :: (read ++ (z ++ (d :: w ++ y'))) by simp]
        refine .snip (hexact _ hfollows (fun hclass => ?_) fun _ => by simp) rfl (ih h)
        have hrest := rest_of_comment hclass hpiece
        cases z with
        | nil => exact .inr (hrest.resolve_left (List.cons_ne_nil _ _))
        | cons e z => exact .inr (hrest.resolve_left (List.cons_ne_nil _ _))

end Stencil.Expr
