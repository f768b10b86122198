import Mathlib.Data.Nat.Find
import Mathlib.Order.Bounds.Basic
import Stencil.Proofs.Spelling

/-!
# Balanced texts and their closing delimiters

A text is balanced if its brackets match outside of its string literals. Put between delimiters,
a balanced text is read back as it is, whatever follows. Any other text goes on to the first
place outside of literals where no bracket is open and the closing delimiter stands: places
outside of literals, and the brackets open there, are told without reading the text character by
character, a whole literal is passed over at a time.
-/

namespace Stencil

namespace Token.Closing

def IsQuote (c : Char) : Prop := c = '\'' ∨ c = '"'

instance (c : Char) : Decidable (IsQuote c) := inferInstanceAs (Decidable (_ ∨ _))

/-- Neither a bracket nor a quotation mark. -/
def IsPlain (c : Char) : Prop := c ∉ ['(', ')', '[', ']', '{', '}', '\'', '"']

instance (c : Char) : Decidable (IsPlain c) := inferInstanceAs (Decidable (¬ _))

/-- The quotation mark that opens a literal: three characters if they all stand there. -/
def Opens (quote text : List Char) : Prop :=
  ∃ q, IsQuote q ∧ (quote = [q, q, q] ∨ quote = [q] ∧ ¬ [q, q, q] <+: text) ∧ quote <+: text

/-- What stands behind an opening quotation mark, up to and with the closing one: escaped
characters, and others where the mark does not stand. -/
inductive LiteralEnd (quote : List Char) : List Char → Prop
  | mark : LiteralEnd quote quote
  | escaped (c : Char) {s : List Char} (hs : LiteralEnd quote s) : LiteralEnd quote ('\\' :: c :: s)
  | char {c : Char} {s : List Char} (hc : c ≠ '\\') (hquote : ¬ quote <+: c :: s)
      (hs : LiteralEnd quote s) : LiteralEnd quote (c :: s)

inductive Balanced : List Char → Prop
  | nil : Balanced []
  | plain {c : Char} {s : List Char} (hc : IsPlain c) (hs : Balanced s) : Balanced (c :: s)
  | literal {quote body s : List Char} (hquote : Opens quote (quote ++ body ++ s))
      (hbody : LiteralEnd quote body) (hs : Balanced s) : Balanced (quote ++ body ++ s)
  | pair {opener closer : Char} {inner s : List Char} (hpair : closerFor opener = some closer)
      (hinner : Balanced inner) (hs : Balanced s) : Balanced (opener :: inner ++ closer :: s)

/-- The place `n` of `s` is outside of string literals, and `pending` are the brackets that are
to be closed there, innermost first. -/
inductive Outside (s : List Char) : Nat → List Char → Prop
  | start : Outside s 0 []
  | opener {n : Nat} {pending : List Char} {c closer : Char} (h : Outside s n pending)
      (hc : s[n]? = some c) (hpair : closerFor c = some closer) :
      Outside s (n + 1) (closer :: pending)
  | closer {n : Nat} {pending : List Char} {c : Char} (h : Outside s n (c :: pending))
      (hc : s[n]? = some c) : Outside s (n + 1) pending
  | other {n : Nat} {pending : List Char} {c : Char} (h : Outside s n pending)
      (hc : s[n]? = some c) (hquote : ¬ IsQuote c) (hpair : closerFor c = none)
      (hpending : pending.head? ≠ some c) : Outside s (n + 1) pending
  | literal {n : Nat} {pending quote body : List Char} (h : Outside s n pending)
      (hquote : Opens quote (s.drop n)) (hbody : LiteralEnd quote body)
      (hstands : quote ++ body <+: s.drop n) : Outside s (n + (quote ++ body).length) pending

/-- The closing delimiter stands at `n`, outside of literals and with no bracket open. -/
def ClosesAt (closer s : List Char) (n : Nat) : Prop :=
  Outside s n [] ∧ n < s.length ∧ closer <+: s.drop n

theorem closer_of_closerFor {opener closer : Char} (h : closerFor opener = some closer) :
    ¬ IsQuote opener ∧ ¬ IsQuote closer ∧ closerFor closer = none := by
  unfold closerFor at h
  split at h <;> cases h <;> decide

theorem not_isPlain_of_closerFor {opener closer : Char} (h : closerFor opener = some closer) :
    ¬ IsPlain closer := by
  unfold closerFor at h
  split at h <;> cases h <;> decide

theorem closerFor_eq_none_of_plain {c : Char} (hc : IsPlain c) : closerFor c = none := by
  unfold IsPlain at hc
  unfold closerFor
  split <;> simp_all

theorem not_isQuote_of_plain {c : Char} (hc : IsPlain c) : ¬ IsQuote c := by
  rintro (rfl | rfl) <;> exact hc (by decide)

theorem Opens.eq_openingQuote {quote : List Char} {c : Char} {cs : List Char}
    (h : Opens quote (c :: cs)) : IsQuote c ∧ quote = openingQuote c cs := by
  obtain ⟨q, hq, hkind, hstands⟩ := h
  unfold openingQuote
  rcases hkind with rfl | ⟨rfl, hsingle⟩
  · obtain ⟨rfl, hcs⟩ := List.cons_prefix_cons.mp hstands
    rw [if_pos (List.isPrefixOf_iff_prefix.mpr hcs)]
    exact ⟨hq, rfl⟩
  · obtain ⟨rfl, -⟩ := List.cons_prefix_cons.mp hstands
    have hcs : ¬ [q, q] <+: cs := fun hcs => hsingle (List.cons_prefix_cons.mpr ⟨rfl, hcs⟩)
    rw [if_neg (by rwa [List.isPrefixOf_iff_prefix])]
    exact ⟨hq, rfl⟩

theorem opens_openingQuote {c : Char} (hc : IsQuote c) (cs : List Char) :
    Opens (openingQuote c cs) (c :: cs) := by
  unfold openingQuote
  by_cases hcs : [c, c] <+: cs
  · rw [if_pos (List.isPrefixOf_iff_prefix.mpr hcs)]
    exact ⟨c, hc, .inl rfl, List.cons_prefix_cons.mpr ⟨rfl, hcs⟩⟩
  · rw [if_neg (by rwa [List.isPrefixOf_iff_prefix])]
    refine ⟨c, hc, .inr ⟨rfl, fun h => hcs (List.cons_prefix_cons.mp h).2⟩, ?_⟩
    simp

theorem Opens.ne_nil {quote text : List Char} (h : Opens quote text) : quote ≠ [] := by
  obtain ⟨q, -, rfl | ⟨rfl, -⟩, -⟩ := h <;> simp

theorem Opens.backslash_notMem {quote text : List Char} (h : Opens quote text) : '\\' ∉ quote := by
  obtain ⟨q, hq, hkind, -⟩ := h
  have hne : '\\' ≠ q := by rcases hq with rfl | rfl <;> decide
  rcases hkind with rfl | ⟨rfl, -⟩ <;> simpa using hne

theorem LiteralEnd.length_le {quote s : List Char} (h : LiteralEnd quote s) :
    quote.length ≤ s.length := by
  induction h with
  | mark => exact le_rfl
  | escaped c hs ih =>
    simp only [List.length_cons]
    omega
  | char hc hquote hs ih =>
    simp only [List.length_cons]
    omega

section Reading

variable {closer : List Char}

theorem offsetFrom_skip (mode : Mode) (skipped rest : List Char) :
    offsetFrom closer mode skipped.length (skipped ++ rest) =
      (offsetFrom closer mode 0 rest).map (· + skipped.length) := by
  induction skipped with
  | nil => simp
  | cons c skipped ih =>
    rw [List.cons_append, List.length_cons, offsetFrom, ih, Option.map_map]
    rfl

theorem offsetFrom_step {mode : Mode} {c : Char} {cs : List Char}
    (h : mode.closesAt closer (c :: cs) = false) :
    offsetFrom closer mode 0 (c :: cs) =
      (offsetFrom closer (mode.step c cs).1 (mode.step c cs).2 cs).map (· + 1) := by
  rw [offsetFrom, h]
  rfl

theorem offsetFrom_mark {pending quote : List Char} (hquote : quote ≠ []) (hmark : '\\' ∉ quote)
    (rest : List Char) :
    offsetFrom closer (.quoted pending quote) 0 (quote ++ rest) =
      (offsetFrom closer (.code pending) 0 rest).map (· + quote.length) := by
  cases quote with
  | nil => exact absurd rfl hquote
  | cons q qs =>
    have hq : q ≠ '\\' := fun hq => hmark (hq ▸ List.mem_cons_self)
    have hstands : (q :: qs).isPrefixOf (q :: (qs ++ rest)) := by simp
    have hstep : Mode.step q (qs ++ rest) (.quoted pending (q :: qs)) =
        (.code pending, qs.length) := by
      simp [Mode.step, hq, hstands]
    rw [List.cons_append, offsetFrom_step rfl, hstep, offsetFrom_skip, Option.map_map]
    rfl

theorem offsetFrom_char {pending quote : List Char} {c : Char} {cs : List Char} (hc : c ≠ '\\')
    (hquote : ¬ quote <+: c :: cs) :
    offsetFrom closer (.quoted pending quote) 0 (c :: cs) =
      (offsetFrom closer (.quoted pending quote) 0 cs).map (· + 1) := by
  have hstep : Mode.step c cs (.quoted pending quote) = (.quoted pending quote, 0) := by
    simp [Mode.step, hc, hquote]
  rw [offsetFrom_step rfl, hstep]

theorem offsetFrom_escaped (pending quote : List Char) (c : Char) (cs : List Char) :
    offsetFrom closer (.quoted pending quote) 0 ('\\' :: c :: cs) =
      (offsetFrom closer (.quoted pending quote) 0 cs).map (· + 2) := by
  rw [offsetFrom_step rfl]
  simp only [Mode.step, if_true, offsetFrom, Option.map_map]
  rfl

theorem offsetFrom_literalEnd {pending quote body : List Char} (hquote : quote ≠ [])
    (hmark : '\\' ∉ quote) (hbody : LiteralEnd quote body) (rest : List Char) :
    offsetFrom closer (.quoted pending quote) 0 (body ++ rest) =
      (offsetFrom closer (.code pending) 0 rest).map (· + body.length) := by
  induction hbody with
  | mark => exact offsetFrom_mark hquote hmark rest
  | escaped c hs ih =>
    rw [List.cons_append, List.cons_append, offsetFrom_escaped, ih, Option.map_map]
    rfl
  | @char c s hc hstands hs ih =>
    have hlater : ¬ quote <+: c :: (s ++ rest) := by
      intro hlater
      have hlength := hs.length_le
      apply hstands
      exact List.prefix_of_prefix_length_le hlater (List.prefix_append (c :: s) rest)
        (hlength.trans (Nat.le_succ _))
    rw [List.cons_append, offsetFrom_char hc hlater, ih, Option.map_map]
    rfl

/-- A text that is closed behind a literal has the end of the literal. -/
theorem exists_literalEnd {pending quote text : List Char} {n : Nat} (hquote : quote ≠ [])
    (hmark : '\\' ∉ quote) (h : offsetFrom closer (.quoted pending quote) 0 text = some n) :
    ∃ body rest m, text = body ++ rest ∧ LiteralEnd quote body ∧
      offsetFrom closer (.code pending) 0 rest = some m ∧ n = m + body.length := by
  match text with
  | [] => simp [offsetFrom] at h
  | c :: cs =>
    by_cases hc : c = '\\'
    · subst hc
      cases cs with
      | nil => simp [offsetFrom, Mode.closesAt] at h
      | cons d cs =>
        rw [offsetFrom_escaped] at h
        obtain ⟨n, hn, rfl⟩ := Option.map_eq_some_iff.mp h
        obtain ⟨body, rest, m, rfl, hbody, hm, rfl⟩ := exists_literalEnd hquote hmark hn
        exact ⟨'\\' :: d :: body, rest, m, rfl, .escaped d hbody, hm, rfl⟩
    · by_cases hstands : quote <+: c :: cs
      · obtain ⟨rest, hrest⟩ := hstands
        rw [← hrest, offsetFrom_mark hquote hmark] at h
        obtain ⟨m, hm, rfl⟩ := Option.map_eq_some_iff.mp h
        exact ⟨quote, rest, m, hrest.symm, .mark, hm, rfl⟩
      · rw [offsetFrom_char hc hstands] at h
        obtain ⟨n, hn, rfl⟩ := Option.map_eq_some_iff.mp h
        obtain ⟨body, rest, m, rfl, hbody, hm, rfl⟩ := exists_literalEnd hquote hmark hn
        have hshort : ¬ quote <+: c :: body := fun hshort =>
          hstands (hshort.trans (List.prefix_append (c :: body) rest))
        exact ⟨c :: body, rest, m, rfl, .char hc hshort hbody, hm, rfl⟩
termination_by text.length

theorem offsetFrom_opens {pending quote text : List Char} (hquote : Opens quote (quote ++ text))
    (h : (Mode.code pending).closesAt closer (quote ++ text) = false) :
    offsetFrom closer (.code pending) 0 (quote ++ text) =
      (offsetFrom closer (.quoted pending quote) 0 text).map (· + quote.length) := by
  cases quote with
  | nil => exact absurd rfl hquote.ne_nil
  | cons q qs =>
    obtain ⟨hq, hopening⟩ := hquote.eq_openingQuote
    change q :: qs = openingQuote q (qs ++ text) at hopening
    have hstep : Mode.step q (qs ++ text) (.code pending) =
        (.quoted pending (q :: qs), qs.length) := by
      unfold IsQuote at hq
      simp [Mode.step, hq, ← hopening]
    rw [List.cons_append] at h ⊢
    rw [offsetFrom_step h, hstep, offsetFrom_skip, Option.map_map]
    rfl

theorem offsetFrom_literal {pending quote body rest : List Char}
    (hquote : Opens quote (quote ++ body ++ rest)) (hbody : LiteralEnd quote body)
    (h : (Mode.code pending).closesAt closer (quote ++ body ++ rest) = false) :
    offsetFrom closer (.code pending) 0 (quote ++ body ++ rest) =
      (offsetFrom closer (.code pending) 0 rest).map (· + (quote ++ body).length) := by
  rw [List.append_assoc] at hquote h ⊢
  rw [offsetFrom_opens hquote h,
    offsetFrom_literalEnd hquote.ne_nil hquote.backslash_notMem hbody, Option.map_map]
  congr 1
  funext n
  simp only [Function.comp, List.length_append]
  omega

/-- A text that begins with a quotation mark and is closed begins with a literal. -/
theorem exists_literal {pending cs : List Char} {c : Char} {n : Nat} (hc : IsQuote c)
    (hopen : (Mode.code pending).closesAt closer (c :: cs) = false)
    (h : offsetFrom closer (.code pending) 0 (c :: cs) = some n) :
    ∃ quote body rest m, c :: cs = quote ++ body ++ rest ∧ Opens quote (c :: cs) ∧
      LiteralEnd quote body ∧ offsetFrom closer (.code pending) 0 rest = some m ∧
      n = m + (quote ++ body).length := by
  have hquote := opens_openingQuote hc cs
  obtain ⟨-, -, -, text, htext⟩ := id hquote
  generalize openingQuote c cs = quote at hquote htext
  rw [← htext] at hopen h hquote ⊢
  rw [offsetFrom_opens hquote hopen] at h
  obtain ⟨k, hk, rfl⟩ := Option.map_eq_some_iff.mp h
  obtain ⟨body, rest, m, rfl, hbody, hm, rfl⟩ :=
    exists_literalEnd hquote.ne_nil hquote.backslash_notMem hk
  refine ⟨quote, body, rest, m, by simp, hquote, hbody, hm, ?_⟩
  rw [List.length_append]
  omega

section Brackets

variable {pending : List Char} {c : Char} {cs : List Char}

theorem offsetFrom_opener {d : Char} (hpair : closerFor c = some d)
    (h : (Mode.code pending).closesAt closer (c :: cs) = false) :
    offsetFrom closer (.code pending) 0 (c :: cs) =
      (offsetFrom closer (.code (d :: pending)) 0 cs).map (· + 1) := by
  have hquote := (closer_of_closerFor hpair).1
  unfold IsQuote at hquote
  rw [offsetFrom_step h]
  simp [Mode.step, hquote, hpair]

theorem offsetFrom_closer (hquote : ¬ IsQuote c) (hpair : closerFor c = none) :
    offsetFrom closer (.code (c :: pending)) 0 (c :: cs) =
      (offsetFrom closer (.code pending) 0 cs).map (· + 1) := by
  unfold IsQuote at hquote
  rw [offsetFrom_step rfl]
  simp [Mode.step, hquote, hpair]

theorem offsetFrom_other (hquote : ¬ IsQuote c) (hpair : closerFor c = none)
    (hpending : pending.head? ≠ some c)
    (h : (Mode.code pending).closesAt closer (c :: cs) = false) :
    offsetFrom closer (.code pending) 0 (c :: cs) =
      (offsetFrom closer (.code pending) 0 cs).map (· + 1) := by
  unfold IsQuote at hquote
  rw [offsetFrom_step h]
  simp [Mode.step, hquote, hpair, hpending]

end Brackets

theorem closesAt_iff {pending text : List Char} :
    (Mode.code pending).closesAt closer text ↔ pending = [] ∧ closer <+: text := by
  cases pending <;> simp [Mode.closesAt]

theorem drop_of_getElem? {s : List Char} {n : Nat} {c : Char} (h : s[n]? = some c) :
    s.drop n = c :: s.drop (n + 1) := by
  obtain ⟨hn, rfl⟩ := List.getElem?_eq_some_iff.mp h
  exact List.drop_eq_getElem_cons hn

theorem Outside.pending_closers {s pending : List Char} {n : Nat} (h : Outside s n pending) :
    ∀ c ∈ pending, ¬ IsQuote c ∧ closerFor c = none := by
  induction h with
  | start => simp
  | opener h hc hpair ih =>
    rw [List.forall_mem_cons]
    exact ⟨(closer_of_closerFor hpair).2, ih⟩
  | closer h hc ih => exact (List.forall_mem_cons.mp ih).2
  | other h hc hquote hpair hpending ih => exact ih
  | literal h hquote hbody hstands ih => exact ih

/-- As long as nothing closes the text, reading gets to every place outside of literals, with the
brackets that are open there. -/
theorem offset?_eq_of_outside {s pending : List Char} {n : Nat} (h : Outside s n pending)
    (hopen : ∀ m < n, ¬ ClosesAt closer s m) :
    offset? closer s = (offsetFrom closer (.code pending) 0 (s.drop n)).map (· + n) := by
  have hnone {m : Nat} {c : Char} {waiting : List Char} (h : Outside s m waiting)
      (hc : s[m]? = some c) (hm : ¬ ClosesAt closer s m) :
      (Mode.code waiting).closesAt closer (c :: s.drop (m + 1)) = false := by
    rw [← drop_of_getElem? hc, ← Bool.not_eq_true, closesAt_iff]
    rintro ⟨rfl, hcloser⟩
    exact hm ⟨h, (List.getElem?_eq_some_iff.mp hc).1, hcloser⟩
  induction h with
  | start => simp [offset?]
  | @opener n pending c d h hc hpair ih =>
    rw [ih fun m hm => hopen m (by omega), drop_of_getElem? hc,
      offsetFrom_opener hpair (hnone h hc (hopen n (by omega))), Option.map_map]
    simp only [Function.comp_def, Nat.add_assoc, Nat.add_comm 1]
  | @closer n pending c h hc ih =>
    obtain ⟨⟨hquote, hpair⟩, -⟩ := List.forall_mem_cons.mp h.pending_closers
    rw [ih fun m hm => hopen m (by omega), drop_of_getElem? hc, offsetFrom_closer hquote hpair,
      Option.map_map]
    simp only [Function.comp_def, Nat.add_assoc, Nat.add_comm 1]
  | @other n pending c h hc hquote hpair hpending ih =>
    rw [ih fun m hm => hopen m (by omega), drop_of_getElem? hc,
      offsetFrom_other hquote hpair hpending (hnone h hc (hopen n (by omega))), Option.map_map]
    simp only [Function.comp_def, Nat.add_assoc, Nat.add_comm 1]
  | @literal n pending quote body h hquote hbody hstands ih =>
    obtain ⟨rest, hrest⟩ := hstands
    have hpos : 0 < (quote ++ body).length := by
      have hne := List.length_pos_iff.mpr hquote.ne_nil
      rw [List.length_append]
      omega
    have hlater : s.drop (n + (quote ++ body).length) = rest := by
      rw [← List.drop_drop, ← hrest, List.drop_left]
    have hinside : n < s.length := by
      by_contra hend
      rw [List.drop_eq_nil_of_le (by omega), List.append_eq_nil_iff] at hrest
      simp [hrest.1] at hpos
    have hnone : (Mode.code pending).closesAt closer (s.drop n) = false := by
      rw [← Bool.not_eq_true, closesAt_iff]
      rintro ⟨rfl, hcloser⟩
      exact hopen n (by omega) ⟨h, hinside, hcloser⟩
    rw [← hrest] at hquote hnone
    rw [ih fun m hm => hopen m (by omega), ← hrest, offsetFrom_literal hquote hbody hnone,
      Option.map_map, hlater]
    simp only [Function.comp_def, Nat.add_assoc, Nat.add_comm (quote ++ body).length]

/-- What is found to close the text behind a place outside of literals does close it. -/
theorem closesAt_of_offsetFrom {s pending : List Char} {n k : Nat} (h : Outside s n pending)
    (hk : offsetFrom closer (.code pending) 0 (s.drop n) = some k) : ClosesAt closer s (n + k) := by
  cases hc : s[n]? with
  | none =>
    rw [List.drop_eq_nil_of_le (List.getElem?_eq_none_iff.mp hc)] at hk
    cases hk
  | some c =>
    have hinside := (List.getElem?_eq_some_iff.mp hc).1
    have htext := drop_of_getElem? hc
    have hlater {pending : List Char} (h : Outside s (n + 1) pending)
        (hk : (offsetFrom closer (.code pending) 0 (s.drop (n + 1))).map (· + 1) = some k) :
        ClosesAt closer s (n + k) := by
      obtain ⟨j, hj, rfl⟩ := Option.map_eq_some_iff.mp hk
      have hcloses := closesAt_of_offsetFrom h hj
      rwa [Nat.add_assoc, Nat.add_comm 1] at hcloses
    rw [htext] at hk
    cases hcloses : (Mode.code pending).closesAt closer (c :: s.drop (n + 1)) with
    | true =>
      rw [offsetFrom, hcloses] at hk
      cases hk
      obtain ⟨rfl, hcloser⟩ := closesAt_iff.mp hcloses
      exact ⟨h, hinside, htext ▸ hcloser⟩
    | false =>
      by_cases hq : IsQuote c
      · obtain ⟨quote, body, rest, j, hrest, hquote, hbody, hj, rfl⟩ :=
          exists_literal hq hcloses hk
        have hpos := List.length_pos_iff.mpr hquote.ne_nil
        rw [← htext] at hquote hrest
        have hbehind := h.literal hquote hbody ⟨rest, hrest.symm⟩
        have hdrop : s.drop (n + (quote ++ body).length) = rest := by
          rw [← List.drop_drop, hrest, List.drop_left]
        have hcloses := closesAt_of_offsetFrom hbehind (hdrop.symm ▸ hj)
        rwa [Nat.add_assoc, Nat.add_comm (quote ++ body).length] at hcloses
      · cases hpair : closerFor c with
        | some d =>
          rw [offsetFrom_opener hpair hcloses] at hk
          exact hlater (h.opener hc hpair) hk
        | none =>
          by_cases hpending : pending.head? = some c
          · obtain ⟨waiting, rfl⟩ := List.head?_eq_some_iff.mp hpending
            rw [offsetFrom_closer hq hpair] at hk
            exact hlater (h.closer hc) hk
          · rw [offsetFrom_other hq hpair hpending hcloses] at hk
            exact hlater (h.other hc hq hpair hpending) hk
termination_by s.length - n
decreasing_by
  · omega
  · simp only [List.length_append]
    omega

theorem offset?_eq_some_iff {s : List Char} {n : Nat} :
    offset? closer s = some n ↔ IsLeast {m | ClosesAt closer s m} n := by
  have hleast {n : Nat} (h : IsLeast {m | ClosesAt closer s m} n) : offset? closer s = some n := by
    obtain ⟨⟨houtside, hinside, hcloser⟩, hfirst⟩ := h
    have hopen : ∀ m < n, ¬ ClosesAt closer s m := by
      intro m hm hcloses
      have := hfirst hcloses
      omega
    have hcloses := closesAt_iff.mpr ⟨rfl, hcloser⟩
    rw [offset?_eq_of_outside houtside hopen]
    rw [List.drop_eq_getElem_cons hinside] at hcloses ⊢
    rw [offsetFrom, hcloses]
    simp
  constructor
  · intro h
    have hfound : ∃ m, ClosesAt closer s m := ⟨0 + n, closesAt_of_offsetFrom .start h⟩
    classical
    have hfirst : IsLeast {m | ClosesAt closer s m} (Nat.find hfound) :=
      ⟨Nat.find_spec hfound, fun m hm => Nat.find_min' hfound hm⟩
    have hsame := hleast hfirst
    rw [h] at hsame
    cases hsame
    exact hfirst
  · exact hleast

theorem offset?_eq_none_iff {s : List Char} :
    offset? closer s = none ↔ ∀ n, ¬ ClosesAt closer s n := by
  constructor
  · intro h n hn
    classical
    have hfound : ∃ m, ClosesAt closer s m := ⟨n, hn⟩
    have hfirst : offset? closer s = some (Nat.find hfound) :=
      offset?_eq_some_iff.mpr ⟨Nat.find_spec hfound, fun m hm => Nat.find_min' hfound hm⟩
    rw [h] at hfirst
    cases hfirst
  · intro h
    cases hn : offset? closer s with
    | none => rfl
    | some n => exact absurd (offset?_eq_some_iff.mp hn).1 (h n)

end Reading

/-- Text behind a closed text that does not begin with a quotation mark lengthens no mark. -/
theorem Opens.append {quote text rest : List Char} (h : Opens quote text)
    (hrest : ∀ c ∈ rest.head?, ¬ IsQuote c) : Opens quote (text ++ rest) := by
  obtain ⟨q, hq, hkind, hstands⟩ := h
  refine ⟨q, hq, hkind.imp_right fun ⟨hsingle, hshort⟩ => ⟨hsingle, fun hlong => ?_⟩,
    hstands.trans (List.prefix_append text rest)⟩
  rcases List.prefix_or_prefix_of_prefix hlong (List.prefix_append text rest) with h | ⟨more, h⟩
  · exact hshort h
  · rw [← h, List.prefix_append_right_inj] at hlong
    cases more with
    | nil => exact hshort (by simp [← h])
    | cons c more =>
      obtain ⟨later, rfl⟩ := hlong
      have hc : c ∈ [q, q, q] := h ▸ List.mem_append_right _ List.mem_cons_self
      have hcq : c = q := by simpa using hc
      exact hrest c rfl (hcq ▸ hq)

/-- The closing delimiter stands nowhere before `rest`, where it might begin in a balanced text. -/
def IsApart (closer rest : List Char) : Prop :=
  ∀ s, Balanced s → s ≠ [] → ¬ closer <+: s ++ rest

theorem offsetFrom_balanced {closer e : List Char} (he : Balanced e) {pending rest : List Char}
    (hpending : ∀ c ∈ pending, ¬ IsPlain c) (hrest : ∀ c ∈ rest.head?, ¬ IsQuote c)
    (hapart : pending = [] → IsApart closer rest) :
    offsetFrom closer (.code pending) 0 (e ++ rest) =
      (offsetFrom closer (.code pending) 0 rest).map (· + e.length) := by
  have hopen {s : List Char} {pending rest : List Char} (hs : Balanced s) (hne : s ≠ [])
      (hapart : pending = [] → IsApart closer rest) :
      (Mode.code pending).closesAt closer (s ++ rest) = false := by
    rw [← Bool.not_eq_true, closesAt_iff]
    rintro ⟨hnone, hcloser⟩
    exact hapart hnone s hs hne hcloser
  induction he generalizing pending rest with
  | nil => simp
  | @plain c s hc hs ih =>
    have hother : pending.head? ≠ some c := fun h => hpending c (List.mem_of_head? h) hc
    have hnone := hopen (.plain hc hs) (by simp) hapart
    rw [List.cons_append] at hnone ⊢
    rw [offsetFrom_other (not_isQuote_of_plain hc) (closerFor_eq_none_of_plain hc) hother hnone,
      ih hpending hrest hapart, Option.map_map]
    rfl
  | @literal quote body s hquote hbody hs ih =>
    have hne : quote ++ body ++ s ≠ [] := by simp [hquote.ne_nil]
    have hnone := hopen (.literal hquote hbody hs) hne hapart
    have hlonger := hquote.append hrest
    rw [List.append_assoc] at hnone hlonger ⊢
    rw [offsetFrom_literal hlonger hbody hnone, ih hpending hrest hapart, Option.map_map]
    simp only [Function.comp_def, List.length_append, Nat.add_assoc, Nat.add_comm s.length]
  | @pair opener close inner s hpair hinner hs ihinner ihs =>
    obtain ⟨-, hquote, hcloser⟩ := closer_of_closerFor hpair
    have hnone := hopen (.pair hpair hinner hs) (by simp) hapart
    rw [List.append_assoc, List.cons_append] at hnone ⊢
    have hclose : ∀ c ∈ close :: pending, ¬ IsPlain c := by
      rw [List.forall_mem_cons]
      exact ⟨not_isPlain_of_closerFor hpair, hpending⟩
    rw [offsetFrom_opener hpair hnone, List.cons_append,
      ihinner hclose (by simpa using hquote) (by simp), offsetFrom_closer hquote hcloser,
      ihs hpending hrest hapart]
    simp only [Option.map_map, Function.comp_def, List.length_append, List.length_cons]
    congr 1
    funext n
    omega

/-- A balanced text begins with a character, a literal or a pair, not with a closing bracket. -/
theorem Balanced.head_ne {c closer opener : Char} {s : List Char}
    (hpair : closerFor opener = some closer) (h : Balanced (c :: s)) : c ≠ closer := by
  rintro rfl
  obtain ⟨-, hquote, hcloser⟩ := closer_of_closerFor hpair
  generalize htext : c :: s = text at h
  cases h with
  | nil => cases htext
  | plain hc hs =>
    cases htext
    exact not_isPlain_of_closerFor hpair hc
  | @literal quote body s hopens hbody hs =>
    rw [← htext] at hopens
    exact hquote hopens.eq_openingQuote.1
  | pair hother hinner hs =>
    cases htext
    rw [hcloser] at hother
    cases hother

theorem Balanced.tail {c : Char} {s : List Char} (hc : IsPlain c) (h : Balanced (c :: s)) :
    Balanced s := by
  generalize htext : c :: s = text at h
  cases h with
  | nil => cases htext
  | plain hc hs =>
    cases htext
    exact hs
  | @literal quote body s hopens hbody hs =>
    rw [← htext] at hopens
    exact absurd hopens.eq_openingQuote.1 (not_isQuote_of_plain hc)
  | pair hpair hinner hs =>
    cases htext
    rw [closerFor_eq_none_of_plain hc] at hpair
    cases hpair

theorem isApart_of_closerFor {opener closer : Char} (hpair : closerFor opener = some closer)
    (closers rest : List Char) : IsApart (closer :: closers) rest := by
  intro s hs hne hprefix
  obtain ⟨c, s, rfl⟩ := List.exists_cons_of_ne_nil hne
  rw [List.cons_append, List.cons_prefix_cons] at hprefix
  exact hs.head_ne hpair hprefix.1.symm

/-- The last character of `!!}` is no beginning of a balanced text, and in what follows one the
delimiter stands as a whole. -/
theorem isApart_rawClosing (rest : List Char) :
    IsApart Delimiter.rawClosing (Delimiter.rawClosing ++ rest) := by
  intro s hs hne hprefix
  unfold Delimiter.rawClosing at hprefix
  match s with
  | [] => exact hne rfl
  | [c] => simp at hprefix
  | [c, d] => simp at hprefix
  | c :: d :: f :: s =>
    simp only [List.cons_append, List.cons_prefix_cons] at hprefix
    obtain ⟨rfl, rfl, rfl, -⟩ := hprefix
    have hbehind := (hs.tail (by decide)).tail (by decide)
    exact @Balanced.head_ne '}' '}' '{' s rfl hbehind rfl

/-- A balanced text in front of one of the closing delimiters is closed by it. -/
theorem offset?_balanced {e : List Char} (he : Balanced e) {closer : List Char}
    (hcloser : closer ∈ [[')'], Delimiter.outputClosing, Delimiter.rawClosing]) (rest : List Char) :
    offset? closer (e ++ (closer ++ rest)) = some e.length := by
  have hapart : IsApart closer (closer ++ rest) := by
    simp only [List.mem_cons, List.not_mem_nil, or_false] at hcloser
    rcases hcloser with rfl | rfl | rfl
    · exact @isApart_of_closerFor '(' ')' rfl _ _
    · exact @isApart_of_closerFor '{' '}' rfl _ _
    · exact isApart_rawClosing rest
  have hhead : ∃ c closers, closer = c :: closers ∧ ¬ IsQuote c := by
    simp only [List.mem_cons, List.not_mem_nil, or_false] at hcloser
    rcases hcloser with rfl | rfl | rfl
    · exact ⟨')', [], rfl, by decide⟩
    · exact ⟨'}', ['}'], rfl, by decide⟩
    · exact ⟨'!', ['!', '}'], rfl, by decide⟩
  obtain ⟨c, closers, rfl, hquote⟩ := hhead
  have hcloses : (Mode.code []).closesAt (c :: closers) (c :: (closers ++ rest)) := by
    rw [closesAt_iff]
    exact ⟨rfl, List.prefix_append (c :: closers) rest⟩
  rw [offset?, offsetFrom_balanced he (by simp) (by simpa using hquote) fun _ => hapart,
    List.cons_append, offsetFrom, if_pos hcloses]
  simp

end Token.Closing

namespace Segment

open Token.Closing

theorem keyword_letters (k : Keyword) : k.text.toList ≠ [] ∧ ∀ c ∈ k.text.toList, c.isLower := by
  have hletters : k.text.toList ≠ [] ∧ k.text.toList.all Char.isLower = true := by
    cases k with
    | opening b => cases b <;> decide
    | closing b => cases b <;> decide
    | _ => decide
  exact ⟨hletters.1, List.all_eq_true.mp hletters.2⟩

theorem letters_of_keywordOf {word : List Char} {k : Keyword} (h : keywordOf word = some k) :
    word ≠ [] ∧ ∀ c ∈ word, Text.isAsciiLetter c := by
  have htext : k.text = String.ofList (word.map Char.toLower) := by
    simpa using List.find?_some h
  have hchars : k.text.toList = word.map Char.toLower := by rw [htext, String.toList_ofList]
  obtain ⟨hne, hlower⟩ := keyword_letters k
  rw [hchars] at hne hlower
  refine ⟨by simpa using hne, fun c hc => ?_⟩
  exact Text.isAsciiLetter_of_lower (hlower _ (List.mem_map_of_mem hc))

theorem leadingWord_keyword {word : List Char} {k : Keyword} (h : keywordOf word = some k)
    (rest : List Char) : leadingWord (word ++ '(' :: rest) = word := by
  obtain ⟨hne, hletters⟩ := letters_of_keywordOf h
  obtain ⟨c, word, rfl⟩ := List.exists_cons_of_ne_nil hne
  have hword : ∀ d ∈ word, Text.isWord d := by
    intro d hd
    have hletter := hletters d (List.mem_cons_of_mem c hd)
    have hsmall : d.toNat < 128 := by
      simp only [Text.isAsciiLetter, Bool.or_eq_true, Bool.and_eq_true, decide_eq_true_eq,
        Char.le_def, UInt32.le_iff_toNat_le] at hletter
      change d.val.toNat < 128
      rcases hletter with h | h
      · exact lt_of_le_of_lt h.2 (by decide)
      · exact lt_of_le_of_lt h.2 (by decide)
    simp [Text.isWord, hsmall, Text.isAsciiWord, hletter]
  rw [List.cons_append, leadingWord, if_pos (by simp [hletters c List.mem_cons_self]),
    List.takeWhile_append_of_pos hword]
  simp [List.takeWhile, show Text.isWord '(' = false from rfl]

theorem scan_cons {previous : Option Char} {adjacent : Bool} {c : Char} {cs rest : List Char}
    {s : Segment} (hfirst : first previous adjacent c cs = .ok s)
    (htext : c :: cs = s.source ++ rest) (p : Text.Position) :
    scan previous adjacent p (c :: cs) =
      (scan s.source.getLast? s.isDirective (p.after s.source) rest).map ((p, s) :: ·) := by
  rw [scan, hfirst]
  simp only [drop_source htext]

/-- The text is cut into the segment `s`, which makes a token of the kind `kind`, and `rest`,
which is read on right behind it. -/
def Yields (previous : Option Char) (adjacent : Bool) (text : List Char) (s : Segment)
    (kind : TokenKind) (rest : List Char) : Prop :=
  text = s.source ++ rest ∧ s.tokenKind? = some kind ∧
    ∀ p, scan previous adjacent p text =
      (scan s.source.getLast? s.isDirective (p.after s.source) rest).map ((p, s) :: ·)

section Embedded

variable {e : List Char}

theorem yields_output (he : Balanced e) (hdash : ¬ ['-', '-'] <+: e) (previous : Option Char)
    (adjacent : Bool) (rest : List Char) :
    Yields previous adjacent (Delimiter.outputOpening ++ e ++ Delimiter.outputClosing ++ rest)
      (.output e) (.output (String.ofList e)) rest := by
  have hclosing := offset?_balanced he (by simp : Delimiter.outputClosing ∈ _) rest
  have hdashes :
      Text.dropBeginning? ['-', '-'] (e ++ (Delimiter.outputClosing ++ rest)) = none := by
    match e with
    | [] => rfl
    | [c] => simp [Text.dropBeginning?, Delimiter.outputClosing]
    | c :: d :: e =>
      rw [List.cons_prefix_cons, List.cons_prefix_cons] at hdash
      simp only [List.nil_prefix, and_true, not_and] at hdash
      simpa [Text.dropBeginning?] using hdash
  have hcomment : Text.dropBeginning? Delimiter.commentOpening
      ('{' :: '{' :: (e ++ (Delimiter.outputClosing ++ rest))) = none := hdashes
  have hfirst : first previous adjacent '{' ('{' :: (e ++ (Delimiter.outputClosing ++ rest))) =
      .ok (.output e) := by
    simp only [first, hcomment]
    simp [Text.dropBeginning?, Delimiter.rawOpening, Delimiter.outputOpening, hclosing]
  refine ⟨rfl, rfl, fun p => ?_⟩
  rw [List.append_assoc, List.append_assoc]
  exact scan_cons hfirst (by simp [source, Delimiter.outputOpening]) p

theorem yields_rawOutput (he : Balanced e) (previous : Option Char) (adjacent : Bool)
    (rest : List Char) :
    Yields previous adjacent (Delimiter.rawOpening ++ e ++ Delimiter.rawClosing ++ rest)
      (.rawOutput e) (.rawOutput (String.ofList e)) rest := by
  have hclosing := offset?_balanced he (by simp : Delimiter.rawClosing ∈ _) rest
  have hfirst : first previous adjacent '{' ('!' :: '!' :: (e ++ (Delimiter.rawClosing ++ rest))) =
      .ok (.rawOutput e) := by
    simp [first, Text.dropBeginning?, Delimiter.commentOpening, Delimiter.rawOpening, hclosing]
  refine ⟨rfl, rfl, fun p => ?_⟩
  rw [List.append_assoc, List.append_assoc]
  exact scan_cons hfirst (by simp [source, Delimiter.rawOpening]) p

/-- A keyword with its argument list may start where an `@` may start a directive. -/
theorem yields_directive (he : Balanced e) {word : List Char} {k : Keyword}
    (hword : keywordOf word = some k) (hk : k.takesArguments) {previous : Option Char}
    {adjacent : Bool} (hstart : mayStart previous adjacent k ['(']) (rest : List Char) :
    Yields previous adjacent ('@' :: word ++ '(' :: e ++ ')' :: rest)
      (.withArguments word k [] e) (.directive k (some (String.ofList e))) rest := by
  have hclosing := offset?_balanced he (by simp : [')'] ∈ _) rest
  rw [List.singleton_append] at hclosing
  have hhere : mayStart previous adjacent k ('(' :: (e ++ ')' :: rest)) := hstart
  have hdirective : directive word k ('(' :: (e ++ ')' :: rest)) =
      .ok (.withArguments word k [] e) := by
    simp [directive, hk, hclosing]
  have hfirst : first previous adjacent '@' (word ++ '(' :: (e ++ ')' :: rest)) =
      .ok (.withArguments word k [] e) := by
    simp only [first, leadingWord_keyword hword, List.drop_left, hword, hhere, if_true, hdirective]
    simp [Text.dropBeginning?, Delimiter.commentOpening, Delimiter.rawOpening,
      Delimiter.outputOpening]
  refine ⟨by simp [source], rfl, fun p => ?_⟩
  rw [List.append_assoc, List.cons_append, List.cons_append]
  exact scan_cons hfirst (by simp [source]) p

end Embedded

/-- Scanning undoes embedding: a balanced text between delimiters is read back as it is, and the
scan goes on right behind the closing delimiter, whatever stands there. In any text the delimiter
is found at the least place where it stands outside of literals with no bracket open, and not
found if there is none. -/
theorem scan_undoes_embedding {e : List Char} (he : Balanced e) (rest : List Char)
    (previous : Option Char) (adjacent : Bool) :
    (∀ word k, keywordOf word = some k → k.takesArguments → mayStart previous adjacent k ['('] →
      Yields previous adjacent ('@' :: word ++ '(' :: e ++ ')' :: rest)
        (.withArguments word k [] e) (.directive k (some (String.ofList e))) rest) ∧
    (¬ ['-', '-'] <+: e →
      Yields previous adjacent (Delimiter.outputOpening ++ e ++ Delimiter.outputClosing ++ rest)
        (.output e) (.output (String.ofList e)) rest) ∧
    Yields previous adjacent (Delimiter.rawOpening ++ e ++ Delimiter.rawClosing ++ rest)
      (.rawOutput e) (.rawOutput (String.ofList e)) rest ∧
    ∀ closer text : List Char,
      (∀ n, offset? closer text = some n ↔ IsLeast {m | ClosesAt closer text m} n) ∧
        (offset? closer text = none ↔ ∀ n, ¬ ClosesAt closer text n) := by
  refine ⟨fun word k hword hk hstart => yields_directive he hword hk hstart rest,
    fun hdash => yields_output he hdash previous adjacent rest,
    yields_rawOutput he previous adjacent rest, fun closer text => ?_⟩
  exact ⟨fun n => offset?_eq_some_iff, offset?_eq_none_iff⟩

/-- Delimiters in a literal with an escaped mark, inside brackets. -/
def nested : List Char := ['f', '[', '\'', ')', '}', '}', '\\', '\'', '\'', ']']

theorem balanced_nested : Balanced nested := by
  have hend : LiteralEnd ['\''] [')', '}', '}', '\\', '\'', '\''] :=
    .char (by decide) (by decide)
      (.char (by decide) (by decide) (.char (by decide) (by decide) (.escaped '\'' .mark)))
  have hliteral : Balanced (['\''] ++ [')', '}', '}', '\\', '\'', '\''] ++ []) :=
    .literal ⟨'\'', .inl rfl, .inr ⟨rfl, by decide⟩, by decide⟩ hend .nil
  exact .plain (by decide) (.pair rfl hliteral .nil)

theorem nested_undoes_embedding :
    Balanced nested ∧
      Yields none false ('@' :: ['I', 'f'] ++ '(' :: nested ++ ')' :: ['}'])
        (.withArguments ['I', 'f'] (.opening .ifBlock) [] nested)
        (.directive (.opening .ifBlock) (some (String.ofList nested))) ['}'] ∧
      Yields none false (Delimiter.outputOpening ++ nested ++ Delimiter.outputClosing ++ ['}'])
        (.output nested) (.output (String.ofList nested)) ['}'] ∧
      Yields none false (Delimiter.rawOpening ++ nested ++ Delimiter.rawClosing ++ ['}'])
        (.rawOutput nested) (.rawOutput (String.ofList nested)) ['}'] := by
  obtain ⟨hdirective, houtput, hraw, -⟩ := scan_undoes_embedding balanced_nested ['}'] none false
  exact ⟨balanced_nested,
    hdirective ['I', 'f'] (.opening .ifBlock) (by decide) (by decide) (by decide),
    houtput (by decide), hraw⟩

end Segment

end Stencil
