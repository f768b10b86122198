import Mathlib.Data.List.TakeWhile
import Stencil.Proofs.Balanced

/-!
# Whole lines

Nothing that a source is cut into can begin in one line, end with it, and depend on what comes
behind: no word, gap or marker has a newline in it, and what may have one is closed before. So a
text that ends with a newline and can be cut into segments is cut into the same ones with any text
behind it, and that text is cut as if it stood alone, further down.
-/

namespace Stencil

namespace Text

/-- The last line is a whole one. -/
def EndsLine (s : List Char) : Prop := s.getLast? = some '\n'

theorem EndsLine.ne_nil {s : List Char} (h : EndsLine s) : s ≠ [] := by
  rintro rfl
  cases h

theorem EndsLine.tail {c : Char} {s : List Char} (h : EndsLine (c :: s)) (hs : s ≠ []) :
    EndsLine s := by
  unfold EndsLine at h ⊢
  rwa [List.getLast?_cons_of_ne_nil hs] at h

theorem EndsLine.tail_of_ne {c : Char} {s : List Char} (h : EndsLine (c :: s)) (hc : c ≠ '\n') :
    EndsLine s := by
  refine h.tail ?_
  rintro rfl
  cases h
  exact hc rfl

theorem EndsLine.of_append {s t : List Char} (h : EndsLine (s ++ t)) (ht : t ≠ []) :
    EndsLine t := by
  unfold EndsLine at h ⊢
  rwa [List.getLast?_append_of_ne_nil _ ht] at h

theorem EndsLine.prefix_iff {s : List Char} (h : EndsLine s) (t : List Char) {p : List Char}
    (hp : '\n' ∉ p) : p <+: s ++ t ↔ p <+: s := by
  induction p generalizing s with
  | nil => simp
  | cons a p ih =>
    obtain ⟨ha, hp⟩ := not_or.mp (mt List.mem_cons.mpr hp)
    obtain ⟨c, s, rfl⟩ := List.exists_cons_of_ne_nil h.ne_nil
    rw [List.cons_append, List.cons_prefix_cons, List.cons_prefix_cons]
    refine and_congr_right fun hac => ?_
    exact ih (h.tail_of_ne (hac ▸ Ne.symm ha)) hp

theorem EndsLine.takeWhile_append {s : List Char} (h : EndsLine s) (t : List Char)
    {p : Char → Bool} (hp : p '\n' = false) : (s ++ t).takeWhile p = s.takeWhile p := by
  rw [List.takeWhile_append, if_neg]
  intro hall
  have hmem : '\n' ∈ s := List.mem_of_getLast? h
  have hwhole : s.takeWhile p = s := (List.takeWhile_prefix p).eq_of_length hall
  have hnewline := List.takeWhile_eq_self_iff.mp hwhole '\n' hmem
  rw [hp] at hnewline
  cases hnewline

theorem EndsLine.dropBeginning?_append {s : List Char} (h : EndsLine s) (t : List Char)
    {p : List Char} (hp : '\n' ∉ p) :
    dropBeginning? p (s ++ t) = (dropBeginning? p s).map (· ++ t) := by
  induction p generalizing s with
  | nil => rfl
  | cons a p ih =>
    obtain ⟨ha, hp⟩ := not_or.mp (mt List.mem_cons.mpr hp)
    obtain ⟨c, s, rfl⟩ := List.exists_cons_of_ne_nil h.ne_nil
    rw [List.cons_append]
    unfold dropBeginning?
    by_cases hac : a = c
    · rw [if_pos (beq_iff_eq.mpr hac), if_pos (beq_iff_eq.mpr hac)]
      exact ih (h.tail_of_ne (hac ▸ Ne.symm ha)) hp
    · rw [if_neg (hac ∘ eq_of_beq), if_neg (hac ∘ eq_of_beq)]
      rfl

theorem EndsLine.of_dropBeginning? {s rest : List Char} (h : EndsLine s) {p : List Char}
    (hp : '\n' ∉ p) (hrest : dropBeginning? p s = some rest) : EndsLine rest := by
  obtain rfl := eq_append_of_dropBeginning? hrest
  refine h.of_append ?_
  rintro rfl
  rw [List.append_nil] at h
  exact hp (List.mem_of_getLast? h)

theorem EndsLine.drop {s part : List Char} (h : EndsLine s) (hpart : part <+: s)
    (hp : '\n' ∉ part) : EndsLine (s.drop part.length) := by
  obtain ⟨rest, rfl⟩ := hpart
  rw [List.drop_left]
  refine h.of_append ?_
  rintro rfl
  rw [List.append_nil] at h
  exact hp (List.mem_of_getLast? h)

theorem EndsLine.indexOf?_append {s : List Char} (h : EndsLine s) (t : List Char)
    {needle : List Char} (hp : '\n' ∉ needle) {n : Nat} (hn : indexOf? needle s = some n) :
    indexOf? needle (s ++ t) = some n := by
  induction s generalizing n with
  | nil => exact absurd rfl h.ne_nil
  | cons c s ih =>
    rw [List.cons_append]
    unfold indexOf? at hn ⊢
    rw [← List.cons_append, h.dropBeginning?_append t hp, Option.isSome_map]
    by_cases hfound : (dropBeginning? needle (c :: s)).isSome = true
    · rw [if_pos hfound] at hn ⊢
      exact hn
    · rw [if_neg hfound] at hn ⊢
      obtain ⟨m, hm, rfl⟩ := Option.map_eq_some_iff.mp hn
      by_cases hs : s = []
      · subst hs
        unfold indexOf? at hm
        split at hm
        · rename_i hempty
          rw [List.isEmpty_iff.mp hempty] at hfound
          exact absurd rfl hfound
        · cases hm
      · rw [ih (h.tail hs) hm]
        rfl

end Text

namespace Text.Position

def below (n : Nat) (p : Position) : Position := ⟨p.line + n, p.column⟩

theorem below_after (n : Nat) (p : Position) (s : List Char) :
    (p.below n).after s = (p.after s).below n := by
  induction s generalizing p with
  | nil => rfl
  | cons c s ih =>
    have hstep : (p.below n).advance c = (p.advance c).below n := by
      unfold advance below
      split
      · rw [Nat.add_right_comm]
      · rfl
    rw [after_cons, after_cons, hstep, ih]

theorem origin_after_of_endsLine {s : List Char} (h : EndsLine s) :
    origin.after s = origin.below (s.count '\n') := by
  rw [origin_after]
  unfold counted below origin
  obtain ⟨lines, rfl⟩ := List.getLast?_eq_some_iff.mp h
  simp [Nat.add_comm]

end Text.Position

open Text (EndsLine)

namespace Token.Closing

def Mode.KeepsLine : Mode → Prop
  | .code _ => True
  | .quoted _ quote => '\n' ∉ quote

theorem openingQuote_append {c : Char} {cs : List Char} (hc : c ≠ '\n')
    (h : EndsLine (c :: cs)) (t : List Char) :
    openingQuote c (cs ++ t) = openingQuote c cs := by
  have hmark : '\n' ∉ [c, c] := by simpa using Ne.symm hc
  have hlook : [c, c].isPrefixOf (cs ++ t) = [c, c].isPrefixOf cs := by
    rw [Bool.eq_iff_iff, List.isPrefixOf_iff_prefix, List.isPrefixOf_iff_prefix]
    exact (h.tail_of_ne hc).prefix_iff t hmark
  unfold openingQuote
  rw [hlook]

theorem openingQuote_keepsLine {c : Char} (hc : c ≠ '\n') (cs pending : List Char) :
    (Mode.quoted pending (openingQuote c cs)).KeepsLine := by
  change '\n' ∉ openingQuote c cs
  unfold openingQuote
  split
  · simpa using Ne.symm hc
  · simpa using Ne.symm hc

theorem Mode.step_keepsLine {mode : Mode} (hmode : mode.KeepsLine) (c : Char) (cs : List Char) :
    (mode.step c cs).1.KeepsLine := by
  cases mode with
  | quoted pending quote =>
    unfold Mode.step
    dsimp only
    split
    · exact hmode
    · split
      · trivial
      · exact hmode
  | code pending =>
    unfold Mode.step
    dsimp only
    split
    · rename_i hquote
      refine openingQuote_keepsLine ?_ cs pending
      rintro rfl
      exact absurd hquote (by decide)
    · split
      · trivial
      · split <;> trivial

/-- What is read next does not depend on what is behind the line. -/
theorem Mode.step_append {mode : Mode} (hmode : mode.KeepsLine) {c : Char} {cs : List Char}
    (h : EndsLine (c :: cs)) (t : List Char) : mode.step c (cs ++ t) = mode.step c cs := by
  cases mode with
  | quoted pending quote =>
    have hlook : quote.isPrefixOf (c :: (cs ++ t)) = quote.isPrefixOf (c :: cs) := by
      rw [Bool.eq_iff_iff, List.isPrefixOf_iff_prefix, List.isPrefixOf_iff_prefix,
        ← List.cons_append]
      exact h.prefix_iff t hmode
    unfold Mode.step
    dsimp only
    rw [hlook]
  | code pending =>
    unfold Mode.step
    dsimp only
    by_cases hquote : (c = '\'' || c = '"') = true
    · have hc : c ≠ '\n' := by
        rintro rfl
        exact absurd hquote (by decide)
      rw [if_pos hquote, if_pos hquote, openingQuote_append hc h]
    · rw [if_neg hquote, if_neg hquote]

theorem Mode.closesAt_append {closer : List Char} (hcloser : '\n' ∉ closer) {s : List Char}
    (h : EndsLine s) (t : List Char) (mode : Mode) :
    mode.closesAt closer (s ++ t) = mode.closesAt closer s := by
  cases mode with
  | quoted pending quote => rfl
  | code pending =>
    cases pending with
    | cons closer pending => rfl
    | nil =>
      unfold Mode.closesAt
      rw [Bool.eq_iff_iff, List.isPrefixOf_iff_prefix, List.isPrefixOf_iff_prefix]
      exact h.prefix_iff t hcloser

/-- By induction on the text: the mode reads on alike, and the end of the line closes nothing. -/
theorem offsetFrom_append {closer : List Char} (hcloser : '\n' ∉ closer) {s : List Char}
    (t : List Char) (h : EndsLine s) {mode : Mode} (hmode : mode.KeepsLine) {skip n : Nat}
    (hn : offsetFrom closer mode skip s = some n) :
    offsetFrom closer mode skip (s ++ t) = some n := by
  induction s generalizing mode skip n with
  | nil => exact absurd rfl h.ne_nil
  | cons c s ih =>
    have hlater {mode : Mode} (hmode : mode.KeepsLine) {skip : Nat}
        (hn : (offsetFrom closer mode skip s).map (· + 1) = some n) :
        (offsetFrom closer mode skip (s ++ t)).map (· + 1) = some n := by
      obtain ⟨m, hm, rfl⟩ := Option.map_eq_some_iff.mp hn
      have hs : s ≠ [] := by
        rintro rfl
        unfold offsetFrom at hm
        cases hm
      rw [ih (h.tail hs) hmode hm]
      rfl
    cases skip with
    | succ skip =>
      unfold offsetFrom at hn
      exact hlater hmode hn
    | zero =>
      rw [List.cons_append]
      unfold offsetFrom at hn ⊢
      rw [← List.cons_append, mode.closesAt_append hcloser h]
      by_cases hcloses : mode.closesAt closer (c :: s) = true
      · rw [if_pos hcloses] at hn ⊢
        exact hn
      · rw [if_neg hcloses] at hn ⊢
        rw [mode.step_append hmode h]
        exact hlater (mode.step_keepsLine hmode c s) hn

theorem offset?_append {closer : List Char} (hcloser : '\n' ∉ closer) {s : List Char}
    (t : List Char) (h : EndsLine s) {n : Nat} (hn : offset? closer s = some n) :
    offset? closer (s ++ t) = some n :=
  offsetFrom_append hcloser t h (show (Mode.code []).KeepsLine from trivial) hn

end Token.Closing

namespace Segment

theorem leadingWord_append {cs : List Char} (h : EndsLine cs) (t : List Char) :
    leadingWord (cs ++ t) = leadingWord cs := by
  obtain ⟨c, cs, rfl⟩ := List.exists_cons_of_ne_nil h.ne_nil
  rw [List.cons_append]
  unfold leadingWord
  dsimp only
  by_cases hc : c = '\n'
  · subst hc
    rfl
  · rw [(h.tail_of_ne hc).takeWhile_append t (p := Text.isWord) rfl]

theorem not_mem_leadingWord (cs : List Char) : '\n' ∉ leadingWord cs := by
  cases cs with
  | nil => exact List.not_mem_nil
  | cons c cs =>
    unfold leadingWord
    dsimp only
    split
    · rename_i hc
      intro hmem
      rcases List.mem_cons.mp hmem with rfl | hmem
      · exact absurd hc (by decide)
      · exact absurd (List.mem_takeWhile_imp hmem) (by decide)
    · exact List.not_mem_nil

theorem head?_append_of_endsLine {s : List Char} (h : EndsLine s) (t : List Char) :
    (s ++ t).head? = s.head? := by
  obtain ⟨c, s, rfl⟩ := List.exists_cons_of_ne_nil h.ne_nil
  rfl

theorem take_append {body t : List Char} {closer : List Char} {n : Nat}
    (hn : ∃ before after, body = before ++ closer ++ after ∧ before.length = n) :
    (body ++ t).take n = body.take n := by
  obtain ⟨before, after, rfl, rfl⟩ := hn
  simp

theorem directive_append {word rest : List Char} {k : Keyword} {s : Segment}
    (h : EndsLine rest) (hs : directive word k rest = .ok s) (t : List Char) :
    directive word k (rest ++ t) = .ok s := by
  unfold directive at hs ⊢
  by_cases hk : k.takesArguments = true
  · rw [if_pos hk] at hs ⊢
    have hgap : ((rest ++ t).takeWhile fun c => c = ' ' || c = '\t') =
        rest.takeWhile fun c => c = ' ' || c = '\t' := h.takeWhile_append t (by decide)
    have hnone : '\n' ∉ rest.takeWhile fun c => c = ' ' || c = '\t' := fun hmem =>
      absurd (List.mem_takeWhile_imp hmem) (by decide)
    have hrest := h.drop (List.takeWhile_prefix _) hnone
    dsimp only at hs ⊢
    rw [hgap, List.drop_append_of_le_length (List.takeWhile_prefix _).length_le]
    split at hs
    · rename_i body hparen
      rw [hparen] at hrest ⊢
      rw [List.cons_append]
      split at hs
      · rename_i n hn
        have hbody : EndsLine body := hrest.tail_of_ne (by decide)
        have hn' := Token.Closing.offset?_append (by decide) t hbody hn
        simp only [hn', take_append (Token.Closing.append_of_offsetFrom hn)]
        exact hs
      · cases hs
    · cases hs
  · rw [if_neg hk] at hs ⊢
    exact hs

theorem first_append {previous : Option Char} {adjacent : Bool} {c : Char} {cs : List Char}
    {s : Segment} (h : EndsLine (c :: cs)) (hs : first previous adjacent c cs = .ok s)
    (t : List Char) : first previous adjacent c (cs ++ t) = .ok s := by
  have hopening {p : List Char} (hp : '\n' ∉ p) : Text.dropBeginning? p (c :: (cs ++ t)) =
      (Text.dropBeginning? p (c :: cs)).map (· ++ t) := h.dropBeginning?_append t hp
  have hrest {p body : List Char} (hp : '\n' ∉ p)
      (hbody : Text.dropBeginning? p (c :: cs) = some body) : EndsLine body :=
    h.of_dropBeginning? hp hbody
  unfold first at hs ⊢
  rw [hopening (p := Delimiter.commentOpening) (by decide),
    hopening (p := Delimiter.rawOpening) (by decide),
    hopening (p := Delimiter.outputOpening) (by decide)]
  cases hcomment : Text.dropBeginning? Delimiter.commentOpening (c :: cs) with
  | some body =>
    rw [hcomment] at hs
    dsimp only [Option.map_some] at hs ⊢
    cases hn : Text.indexOf? Delimiter.commentClosing body with
    | none =>
      rw [hn] at hs
      cases hs
    | some n =>
      rw [hn] at hs
      rw [(hrest (by decide) hcomment).indexOf?_append t (by decide) hn]
      dsimp only
      rw [take_append (Text.append_of_indexOf? hn)]
      exact hs
  | none =>
    rw [hcomment] at hs
    dsimp only [Option.map_none] at hs ⊢
    cases hraw : Text.dropBeginning? Delimiter.rawOpening (c :: cs) with
    | some body =>
      rw [hraw] at hs
      dsimp only [Option.map_some] at hs ⊢
      cases hn : Token.Closing.offset? Delimiter.rawClosing body with
      | none =>
        rw [hn] at hs
        cases hs
      | some n =>
        rw [hn] at hs
        rw [Token.Closing.offset?_append (by decide) t (hrest (by decide) hraw) hn]
        dsimp only
        rw [take_append (Token.Closing.append_of_offsetFrom hn)]
        exact hs
    | none =>
      rw [hraw] at hs
      dsimp only [Option.map_none] at hs ⊢
      cases houtput : Text.dropBeginning? Delimiter.outputOpening (c :: cs) with
      | some body =>
        rw [houtput] at hs
        dsimp only [Option.map_some] at hs ⊢
        cases hn : Token.Closing.offset? Delimiter.outputClosing body with
        | none =>
          rw [hn] at hs
          cases hs
        | some n =>
          rw [hn] at hs
          rw [Token.Closing.offset?_append (by decide) t (hrest (by decide) houtput) hn]
          dsimp only
          rw [take_append (Token.Closing.append_of_offsetFrom hn)]
          exact hs
      | none =>
        rw [houtput] at hs
        dsimp only [Option.map_none] at hs ⊢
        by_cases hat : c = '@'
        · have hcs : EndsLine cs := h.tail_of_ne (hat ▸ by decide)
          rw [if_pos hat] at hs ⊢
          have hdrop := hcs.drop (leadingWord_is_beginning cs) (not_mem_leadingWord cs)
          rw [leadingWord_append hcs, List.drop_append_of_le_length
            (leadingWord_is_beginning cs).length_le]
          cases hword : keywordOf (leadingWord cs) with
          | none =>
            rw [hword] at hs
            exact hs
          | some k =>
            rw [hword] at hs
            dsimp only at hs ⊢
            unfold mayStart at hs ⊢
            rw [head?_append_of_endsLine hdrop]
            split at hs
            · rename_i hmay
              rw [if_pos hmay]
              exact directive_append hdrop hs t
            · rename_i hmay
              rw [if_neg hmay]
              exact hs
        · rw [if_neg hat] at hs ⊢
          exact hs

/-- Only a newline that is literal text ends a segment with the line. -/
theorem eq_newline_of_endsLine {previous : Option Char} {adjacent : Bool} {c : Char}
    {cs : List Char} {s : Segment} (hs : first previous adjacent c cs = .ok s)
    (h : EndsLine s.source) : s = literal '\n' := by
  obtain ⟨after, -, hwritten⟩ := first_reads hs
  unfold EndsLine at h
  cases s with
  | literal c =>
    cases h
    rfl
  | comment body =>
    rw [source, Delimiter.commentClosing,
      List.getLast?_append_of_ne_nil _ (List.cons_ne_nil _ _)] at h
    cases h
  | output body =>
    rw [source, Delimiter.outputClosing,
      List.getLast?_append_of_ne_nil _ (List.cons_ne_nil _ _)] at h
    cases h
  | rawOutput body =>
    rw [source, Delimiter.rawClosing, List.getLast?_append_of_ne_nil _ (List.cons_ne_nil _ _)] at h
    cases h
  | bare word k =>
    obtain ⟨-, hletters⟩ := letters_of_keywordOf hwritten.1
    rcases List.mem_cons.mp (List.mem_of_getLast? h) with h | h
    · cases h
    · exact absurd (hletters _ h) (by decide)
  | withArguments word k gap body =>
    rw [source, List.getLast?_append_of_ne_nil _ (List.cons_ne_nil _ _)] at h
    cases h

/-- A scan of whole lines ends with a newline that is literal text, and goes on behind it. By
induction on the scan. -/
theorem scan_append {previous : Option Char} {adjacent : Bool} {p : Text.Position}
    {lines : List Char} {found : List (Text.Position × Segment)} (h : EndsLine lines)
    (hfound : scan previous adjacent p lines = .ok found) :
    (∃ before q, found = before ++ [(q, literal '\n')]) ∧
      ∀ t, scan previous adjacent p (lines ++ t) =
        (scan (some '\n') false (p.after lines) t).map (found ++ ·) := by
  fun_induction scan previous adjacent p lines generalizing found with
  | case1 => exact absurd rfl h.ne_nil
  | case2 => cases hfound
  | case3 previous adjacent p c cs s hs _ rest =>
    rename_i ih
    obtain ⟨after, htext, -⟩ := first_reads hs
    have hdrop := drop_source htext
    cases hrest : rest with
    | error e =>
      rw [hrest] at hfound
      cases hfound
    | ok more =>
      rw [hrest] at hfound
      cases hfound
      have hbehind (t : List Char) : c :: (cs ++ t) = s.source ++ (after ++ t) := by
        rw [← List.cons_append, htext, List.append_assoc]
      have hgoes (t : List Char) := scan_cons (first_append h hs t) (hbehind t) p
      rw [hdrop] at ih
      have hmore : scan s.source.getLast? s.isDirective (p.after s.source) after = .ok more :=
        hdrop ▸ hrest
      cases after with
      | nil =>
        rw [htext, List.append_nil] at h
        obtain rfl := eq_newline_of_endsLine hs h
        rw [scan] at hmore
        cases hmore
        refine ⟨⟨[], p, rfl⟩, fun t => ?_⟩
        rw [List.cons_append, hgoes, htext]
        rfl
      | cons d after =>
        obtain ⟨⟨before, q, hlast⟩, hscan⟩ :=
          ih (htext ▸ h |>.of_append (List.cons_ne_nil _ _)) hmore
        refine ⟨⟨(p, s) :: before, q, by rw [hlast]; rfl⟩, fun t => ?_⟩
        rw [List.cons_append, hgoes, htext, Text.Position.after_append, hscan]
        cases scan (some '\n') false ((p.after s.source).after (d :: after)) t <;> rfl

/-- What a text is cut into, from a given position on; a fault is behind some of the text. -/
def located (p : Text.Position) : Except (Fault × List Char) (List Segment) →
    Except (Fault × Text.Position) (List (Text.Position × Segment))
  | .ok segments => .ok (placed p segments)
  | .error (f, before) => .error (f, p.after before)

/-- Where a text begins makes no difference to what it is cut into. -/
theorem scan_located (previous : Option Char) (adjacent : Bool) (text : List Char) :
    ∃ r, ∀ p, scan previous adjacent p text = located p r := by
  suffices h : ∀ q : Text.Position, ∃ r, ∀ p, scan previous adjacent p text = located p r from
    h .origin
  intro q
  fun_induction scan previous adjacent q text with
  | case1 => exact ⟨.ok [], fun p => by rw [scan]; rfl⟩
  | case2 previous adjacent q c cs f hf =>
    exact ⟨.error (f, f.passed), fun p => by rw [scan, hf]; rfl⟩
  | case3 previous adjacent q c cs s hs _ rest =>
    rename_i ih
    obtain ⟨after, htext, -⟩ := first_reads hs
    rw [drop_source htext] at ih
    obtain ⟨r, hr⟩ := ih
    cases r with
    | ok segments =>
      refine ⟨.ok (s :: segments), fun p => ?_⟩
      rw [scan_cons hs htext, hr]
      rfl
    | error e =>
      obtain ⟨f, before⟩ := e
      refine ⟨.error (f, s.source ++ before), fun p => ?_⟩
      rw [scan_cons hs htext, hr]
      simp only [located, Text.Position.after_append]
      rfl

/-- Behind a character that is no part of a word a text is cut as if nothing stood in front. -/
theorem scan_alone {previous : Char} (h : Text.isWord previous = false) (p : Text.Position)
    (text : List Char) : scan (some previous) false p text = scan none false p text := by
  cases text with
  | nil => rw [scan, scan]
  | cons c cs =>
    have hfirst : first (some previous) false c cs = first none false c cs := by
      unfold first mayStart
      rw [Option.any_some, h]
      rfl
    rw [scan, scan, hfirst]

theorem placed_below (n : Nat) (p : Text.Position) (segments : List Segment) :
    placed (p.below n) segments = (placed p segments).map (Prod.map (.below n) id) := by
  induction segments generalizing p with
  | nil => rfl
  | cons s segments ih =>
    rw [placed, placed, Text.Position.below_after, ih]
    rfl

theorem placed_segments (p : Text.Position) (segments : List Segment) :
    (placed p segments).map Prod.snd = segments := by
  induction segments generalizing p with
  | nil => rfl
  | cons s segments ih => rw [placed, List.map_cons, ih]

end Segment

namespace Token

/-- The same token at another place. -/
def moved (m : Text.Position → Text.Position) (t : Token) : Token :=
  { t with position := m t.position }

/-- A token in front of others; literal text is joined with literal text. -/
def join (t : Token) : List Token → List Token
  | [] => [t]
  | u :: us =>
    match t.kind, u.kind with
    | .data s, .data s' => ⟨.data (s ++ s'), t.position⟩ :: us
    | _, _ => t :: u :: us

/-- Tokens in front of others; literal text that meets literal text is joined. -/
def joined (ts us : List Token) : List Token :=
  match ts.getLast? with
  | none => us
  | some t => ts.dropLast ++ t.join us

theorem joined_concat (ts : List Token) (t : Token) (us : List Token) :
    joined (ts ++ [t]) us = ts ++ t.join us := by
  unfold joined
  rw [List.getLast?_concat, List.dropLast_concat]

theorem dropLast_finish (ts : List Token) (t stop : Token) :
    (ts ++ [t, stop]).dropLast = ts ++ [t] := by
  rw [List.dropLast_append_of_ne_nil (List.cons_ne_nil _ _)]
  rfl

theorem join_join (s s' : String) (p q : Text.Position) (us : List Token) :
    join ⟨.data s, p⟩ (join ⟨.data s', q⟩ us) = join ⟨.data (s ++ s'), p⟩ us := by
  cases us with
  | nil => rfl
  | cons u us =>
    obtain ⟨kind, position⟩ := u
    cases kind with
    | data s'' => simp only [join, String.append_assoc]
    | _ => rfl

theorem join_kinds (t : Token) {us us' : List Token}
    (h : us.map Token.kind = us'.map Token.kind) :
    (t.join us).map Token.kind = (t.join us').map Token.kind := by
  cases us with
  | nil =>
    obtain rfl := List.map_eq_nil_iff.mp h.symm
    rfl
  | cons u us =>
    obtain ⟨u', us', rfl, hkind, hrest⟩ := List.map_eq_cons_iff.mp h.symm
    unfold join
    dsimp only
    rw [hkind]
    split <;> simp [hkind, hrest]

end Token

namespace Segment

theorem flush_moved (m : Text.Position → Text.Position) (pending : Pending) (rest : List Token) :
    flush (pending.map (Prod.map m id)) (rest.map (Token.moved m)) =
      (flush pending rest).map (Token.moved m) := by
  cases pending <;> rfl

theorem tokensAfter_moved (m : Text.Position → Text.Position) (stop : Text.Position)
    (pending : Pending) (segments : List (Text.Position × Segment)) :
    tokensAfter (m stop) (pending.map (Prod.map m id)) (segments.map (Prod.map m id)) =
      (tokensAfter stop pending segments).map (Token.moved m) := by
  induction segments generalizing pending with
  | nil => exact flush_moved m pending [⟨.finish, stop⟩]
  | cons e segments ih =>
    obtain ⟨p, s⟩ := e
    have hmark {kind : TokenKind} : flush (pending.map (Prod.map m id))
        (⟨kind, m p⟩ :: tokensAfter (m stop) none (segments.map (Prod.map m id))) =
          (flush pending (⟨kind, p⟩ :: tokensAfter stop none segments)).map (Token.moved m) := by
      rw [← flush_moved, List.map_cons, ← ih none]
      rfl
    cases s with
    | literal c =>
      cases pending with
      | none => exact ih (some (p, [c]))
      | some e => exact ih (some (e.1, c :: e.2))
    | comment body => exact ih pending
    | output body => exact hmark
    | rawOutput body => exact hmark
    | bare word k => exact hmark
    | withArguments word k gap body => exact hmark

/-- What tokens are does not depend on where segments stand. -/
theorem kinds_of_segments {stop stop' : Text.Position} {pending pending' : Pending}
    {segments segments' : List (Text.Position × Segment)}
    (hpending : pending.map Prod.snd = pending'.map Prod.snd)
    (hsegments : segments.map Prod.snd = segments'.map Prod.snd) :
    (tokensAfter stop pending segments).map Token.kind =
      (tokensAfter stop' pending' segments').map Token.kind := by
  let m : Text.Position → Text.Position := fun _ => .origin
  have hkinds (stop : Text.Position) (pending : Pending)
      (segments : List (Text.Position × Segment)) :
      (tokensAfter stop pending segments).map Token.kind =
        (tokensAfter .origin ((pending.map Prod.snd).map (Text.Position.origin, ·))
          ((segments.map Prod.snd).map (Text.Position.origin, ·))).map Token.kind := by
    have hmoved := congrArg (List.map Token.kind) (tokensAfter_moved m stop pending segments)
    rw [List.map_map] at hmoved
    rw [Option.map_map, List.map_map]
    exact hmoved.symm
  rw [hkinds, hpending, hsegments, ← hkinds]

/-- Tokens of segments one behind the other, of which the last is literal text. -/
theorem tokensAfter_concat (pending : Pending) (segments : List (Text.Position × Segment))
    (p : Text.Position) (c : Char) :
    ∃ ts q text, ∀ stop more, tokensAfter stop pending (segments ++ (p, literal c) :: more) =
      ts ++ tokensAfter stop (some (q, text)) more := by
  induction segments generalizing pending with
  | nil =>
    cases pending with
    | none => exact ⟨[], p, [c], fun _ _ => rfl⟩
    | some e => exact ⟨[], e.1, c :: e.2, fun _ _ => rfl⟩
  | cons e segments ih =>
    obtain ⟨p', s⟩ := e
    have hmark (kind : TokenKind) : ∃ ts q text, ∀ stop more,
        flush pending (⟨kind, p'⟩ ::
          tokensAfter stop none (segments ++ (p, literal c) :: more)) =
            ts ++ tokensAfter stop (some (q, text)) more := by
      obtain ⟨ts, q, text, h⟩ := ih none
      refine ⟨flush pending (⟨kind, p'⟩ :: ts), q, text, fun stop more => ?_⟩
      rw [h]
      cases pending <;> rfl
    cases s with
    | literal c' =>
      cases pending with
      | none => exact ih (some (p', [c']))
      | some e => exact ih (some (e.1, c' :: e.2))
    | comment body => exact ih pending
    | output body => exact hmark _
    | rawOutput body => exact hmark _
    | bare word k => exact hmark _
    | withArguments word k gap body => exact hmark _

theorem tokensAfter_pending (stop q : Text.Position) (text : List Char)
    (segments : List (Text.Position × Segment)) :
    tokensAfter stop (some (q, text)) segments =
      Token.join ⟨.data (String.ofList text.reverse), q⟩ (tokensAfter stop none segments) := by
  induction segments generalizing q text with
  | nil => rfl
  | cons e segments ih =>
    obtain ⟨p, s⟩ := e
    cases s with
    | literal c =>
      change tokensAfter stop (some (q, c :: text)) segments =
        Token.join _ (tokensAfter stop (some (p, [c])) segments)
      rw [ih, ih p, Token.join_join, ← String.ofList_append, ← List.reverse_append]
      rfl
    | comment body => exact ih q text
    | output body => rfl
    | rawOutput body => rfl
    | bare word k => rfl
    | withArguments word k gap body => rfl

end Segment

namespace Segment

/-- Behind its opening a comment goes on up to the closing behind its text. -/
theorem indexOf?_commentClosing {body : List Char} (h : ¬ Delimiter.commentClosing <:+: body)
    (t : List Char) : Text.indexOf? Delimiter.commentClosing
      (body ++ (Delimiter.commentClosing ++ t)) = some body.length := by
  induction body with
  | nil => rfl
  | cons c body ih =>
    have hlater := ih fun hin => h (hin.trans (List.suffix_cons c body).isInfix)
    have hnot : Text.dropBeginning? Delimiter.commentClosing
        (c :: (body ++ (Delimiter.commentClosing ++ t))) = none := by
      refine Option.eq_none_iff_forall_ne_some.mpr fun rest hrest => ?_
      have heq := Text.eq_append_of_dropBeginning? hrest
      unfold Delimiter.commentClosing at heq h
      rcases body with _ | ⟨d, _ | ⟨e, _ | ⟨f, body⟩⟩⟩
      · simp at heq
      · simp at heq
      · simp at heq
      · simp only [List.cons_append, List.cons.injEq] at heq
        obtain ⟨rfl, rfl, rfl, rfl, -⟩ := heq
        exact h ⟨[], body, rfl⟩
    rw [List.cons_append]
    unfold Text.indexOf?
    rw [hnot, hlater]
    rfl

theorem scan_comment (previous : Option Char) (adjacent : Bool) (p : Text.Position)
    {body : List Char} (h : ¬ Delimiter.commentClosing <:+: body) (t : List Char) :
    scan previous adjacent p (source (comment body) ++ t) =
      (scan none false (p.after (source (comment body))) t).map ((p, comment body) :: ·) := by
  let inner := body ++ (Delimiter.commentClosing ++ t)
  have htext : source (comment body) ++ t = '{' :: ('{' :: '-' :: '-' :: inner) := by
    simp [source, Delimiter.commentOpening, inner]
  have hfirst : first previous adjacent '{' ('{' :: '-' :: '-' :: inner) = .ok (comment body) := by
    have hopening : Text.dropBeginning? Delimiter.commentOpening
        ('{' :: '{' :: '-' :: '-' :: inner) = some inner := rfl
    unfold first
    simp only [hopening, inner, indexOf?_commentClosing h]
    rw [List.take_left]
  have hlast : (source (comment body)).getLast? = some '}' := by
    rw [source, Delimiter.commentClosing, List.getLast?_append_of_ne_nil _ (List.cons_ne_nil _ _)]
    rfl
  have hscan := scan_cons hfirst htext.symm p
  rw [hlast] at hscan
  rw [htext, hscan]
  exact congrArg _ (scan_alone (by decide) _ t)

end Segment

namespace Source

variable {name filename : Option String} {a : String}

/-- How a source is written: the kinds of its tokens, or the code of what is wrong with it. -/
def kinds (s : Source) : Except ErrorCode (List TokenKind) :=
  match s.tokens with
  | .ok tokens => .ok (tokens.map Token.kind)
  | .error e => .error e.code

theorem segments_of_tokens {s : Source} {ts : List Token} (h : s.tokens = .ok ts) :
    ∃ found, s.segments = .ok found := by
  unfold tokens at h
  cases hfound : s.segments with
  | ok found => exact ⟨found, rfl⟩
  | error e =>
    rw [hfound] at h
    cases h

section Joined

variable {found : List (Text.Position × Segment)} (hline : EndsLine a.toList)
  (hfound : (Source.mk a name filename).segments = .ok found)

include hline hfound

theorem segments_append (b : String) : (Source.mk (a ++ b) name filename).segments =
    (Segment.scan none false (.below (a.toList.count '\n') .origin) b.toList).map (found ++ ·) := by
  unfold segments at hfound ⊢
  have hscan := (Segment.scan_append hline hfound).2 b.toList
  rw [Segment.scan_alone (by decide), Text.Position.origin_after_of_endsLine hline] at hscan
  rw [String.toList_append, hscan]

/-- The tokens of whole lines end with literal text, which is joined with what comes next. -/
theorem tokens_joined : ∃ ts q s, (Source.mk a name filename).tokens =
      .ok (ts ++ [⟨.data s, q⟩, ⟨.finish, .after .origin a.toList⟩]) ∧
    ∀ stop more, Segment.tokensAfter stop none (found ++ more) =
      ts ++ Token.join ⟨.data s, q⟩ (Segment.tokensAfter stop none more) := by
  obtain ⟨before, p, rfl⟩ := (Segment.scan_append hline hfound).1
  obtain ⟨ts, q, text, hts⟩ := Segment.tokensAfter_concat none before p '\n'
  refine ⟨ts, q, String.ofList text.reverse, ?_, fun stop more => ?_⟩
  · rw [Source.tokens, hfound]
    exact congrArg Except.ok (hts _ [])
  · rw [List.append_assoc]
    exact (hts stop more).trans (congrArg (ts ++ ·) (Segment.tokensAfter_pending stop q text more))

/-- A text behind whole lines is cut into tokens as if it stood alone, further down. -/
theorem tokens_append {ts us : List Token} (hts : (Source.mk a name filename).tokens = .ok ts)
    {b : String} (hus : (Source.mk b name filename).tokens = .ok us) :
    (Source.mk (a ++ b) name filename).tokens = .ok
      (Token.joined ts.dropLast (us.map (Token.moved (.below (a.toList.count '\n'))))) := by
  obtain ⟨before, q, s, htokens, hmore⟩ := tokens_joined hline hfound
  cases htokens.symm.trans hts
  obtain ⟨r, hr⟩ := Segment.scan_located none false b.toList
  have hsegments := segments_append hline hfound b
  rw [hr] at hsegments
  have hb : (Source.mk b name filename).segments = Segment.located .origin r := hr _
  unfold tokens at hus ⊢
  rw [hb] at hus
  rw [hsegments]
  cases r with
  | error e => cases hus
  | ok segments =>
    cases hus
    unfold tokensOf
    change Except.ok (Segment.tokensAfter _ none (found ++ Segment.placed _ segments)) = _
    have hstop : Text.Position.origin.after (a ++ b).toList =
        (Text.Position.origin.after b.toList).below (a.toList.count '\n') := by
      rw [String.toList_append, Text.Position.after_append,
        Text.Position.origin_after_of_endsLine hline, Text.Position.below_after]
    rw [hmore, Token.dropLast_finish, Token.joined_concat, Segment.placed_below, hstop]
    exact congrArg (fun us => Except.ok (before ++ Token.join _ us))
      (Segment.tokensAfter_moved _ _ none _)

/-- A text behind whole lines is refused as if it stood alone, further down. -/
theorem tokens_append_error {b : String} {e : SyntaxError}
    (he : (Source.mk b name filename).tokens = .error e) :
    (Source.mk (a ++ b) name filename).tokens = .error
      { e with line := e.line.map (· + a.toList.count '\n'), source := some (a ++ b) } := by
  obtain ⟨r, hr⟩ := Segment.scan_located none false b.toList
  have hsegments := segments_append hline hfound b
  rw [hr] at hsegments
  have hb : (Source.mk b name filename).segments = Segment.located .origin r := hr _
  unfold tokens at he ⊢
  rw [hb] at he
  rw [hsegments]
  cases r with
  | ok segments => cases he
  | error fault =>
    obtain ⟨f, before⟩ := fault
    cases he
    change Except.error (errorAt _ f.message f.code _) = _
    rw [Text.Position.below_after]
    rfl

/-- A comment between whole lines and a text does not change how they are written. -/
theorem kinds_comment {c : String} (hc : ¬ Delimiter.commentClosing <:+: c.toList) (b : String) :
    (Source.mk (a ++ "\x7b\x7b--" ++ c ++ "--\x7d\x7d" ++ b) name filename).kinds =
      (Source.mk (a ++ b) name filename).kinds := by
  obtain ⟨ts, q, s, -, hmore⟩ := tokens_joined hline hfound
  obtain ⟨r, hr⟩ := Segment.scan_located none false b.toList
  have hplain := segments_append hline hfound b
  rw [hr] at hplain
  have htext : ("\x7b\x7b--" ++ c ++ "--\x7d\x7d" ++ b).toList =
      Segment.source (.comment c.toList) ++ b.toList := by
    simp only [String.toList_append]
    rfl
  have hcommented := segments_append hline hfound ("\x7b\x7b--" ++ c ++ "--\x7d\x7d" ++ b)
  rw [htext, Segment.scan_comment none false _ hc, hr] at hcommented
  have hassoc : a ++ "\x7b\x7b--" ++ c ++ "--\x7d\x7d" ++ b =
      a ++ ("\x7b\x7b--" ++ c ++ "--\x7d\x7d" ++ b) := by
    simp only [String.append_assoc]
  rw [hassoc]
  unfold kinds tokens
  rw [hplain, hcommented]
  cases r with
  | error fault => rfl
  | ok segments =>
    change Except.ok (List.map Token.kind (Segment.tokensAfter _ none (found ++ _ :: _))) =
      Except.ok (List.map Token.kind (Segment.tokensAfter _ none (found ++ _)))
    rw [hmore, hmore, List.map_append, List.map_append]
    refine congrArg (fun kinds => Except.ok (ts.map Token.kind ++ kinds)) (Token.join_kinds _ ?_)
    change (Segment.tokensAfter _ none (Segment.placed _ segments)).map Token.kind = _
    refine Segment.kinds_of_segments rfl ?_
    rw [Segment.placed_segments, Segment.placed_segments]

end Joined

end Source

end Stencil
