import Stencil.Proofs.Numerals

/-!
# Pieces of a text

What the lexer reads next depends on the characters in front of it only; the open brackets tell
whether a line end counts, and whether a closing bracket fits. So a text is cut into pieces first,
and the brackets settle which of them are lexemes.
-/

namespace Stencil.Expr

/-- What stands at the beginning of a text: a lexeme, a line end, or something to be skipped. -/
inductive Piece
  | blank
  | newline
  | lexeme (kind : LexemeKind)

/-- The body of a string literal up to its closing quote, and what follows the quote. -/
def bodyOf (quote : List Char) : List Char → Option (List Char × List Char)
  | [] => none
  | c :: cs =>
    if quote.isPrefixOf (c :: cs.take 2) then some ([], cs.drop (quote.length - 1))
    else if c = '\n' && quote.length = 1 then none
    else if c = '\\' then
      match cs with
      | [] => none
      | d :: rest => (bodyOf quote rest).map fun r => ('\\' :: d :: r.1, r.2)
    else (bodyOf quote cs).map fun r => (c :: r.1, r.2)

theorem bodyOf_cons (quote : List Char) (c : Char) (cs : List Char) :
    bodyOf quote (c :: cs) =
      if quote.isPrefixOf (c :: cs.take 2) then some ([], cs.drop (quote.length - 1))
      else if c = '\n' && quote.length = 1 then none
      else if c = '\\' then
        match cs with
        | [] => none
        | d :: rest => (bodyOf quote rest).map fun r => ('\\' :: d :: r.1, r.2)
      else (bodyOf quote cs).map fun r => (c :: r.1, r.2) := by
  cases cs <;> rfl

def quoted? (style : QuotePrefix) : List Char → Option (Piece × List Char)
  | [] => none
  | q :: cs =>
    let quote := if [q, q].isPrefixOf (cs.take 2) then [q, q, q] else [q]
    (bodyOf quote (cs.drop (quote.length - 1))).map fun r => (.lexeme (.string style r.1), r.2)

/-- The style of a string literal that a word begins, if a quote follows it. -/
def style? (word rest : List Char) : Option QuotePrefix :=
  if rest.head?.any fun q => q = '\'' || q = '"' then QuotePrefix.ofLetters? word else none

def word? (cs : List Char) : Option (Piece × List Char) :=
  let word := cs.takeWhile Numeral.isNameChar
  let rest := cs.drop word.length
  match style? word rest with
  | some style => quoted? style rest
  | none =>
    if isIdentifier word then some (.lexeme (.name (String.ofList word)), rest) else none

inductive Class
  | skip | newline | comment | escape | quote | number | word | symbol
deriving DecidableEq

def classOf (c : Char) (cs : List Char) : Class :=
  if c = ' ' || c = '\t' || c = '\x0c' then .skip
  else if c = '\n' then .newline
  else if c = '#' then .comment
  else if c = '\\' then .escape
  else if c = '\'' || c = '"' then .quote
  else if Numeral.begins c cs then .number
  else if Numeral.isNameChar c then .word
  else .symbol

def pieceOf (c : Char) (cs : List Char) : Class → Option (Piece × List Char)
  | .skip => some (.blank, cs)
  | .newline => some (.newline, cs)
  | .comment => some (.blank, cs.dropWhile (· ≠ '\n'))
  | .escape => if cs.head? = some '\n' && !cs.tail.isEmpty then some (.blank, cs.tail) else none
  | .quote => quoted? ⟨false, false, false⟩ (c :: cs)
  | .number => (Numeral.read? (c :: cs)).map fun r => (.lexeme (.number r.1), r.2)
  | .word => word? (c :: cs)
  | .symbol =>
    (symbol? (c :: cs)).map fun s => (.lexeme (.symbol (String.ofList s)), (c :: cs).drop s.length)

def piece? (c : Char) (cs : List Char) : Option (Piece × List Char) := pieceOf c cs (classOf c cs)

/-- The lexeme that a piece is, and the brackets to be closed behind it. -/
def settle (pending : List Char) : Piece → Option (Option LexemeKind × List Char)
  | .blank => some (none, pending)
  | .newline => some (if pending.isEmpty then some .newline else none, pending)
  | .lexeme (.symbol s) => (track s.toList pending).map fun next => (some (.symbol s), next)
  | .lexeme kind => some (some kind, pending)

theorem isPrefixOf_take {quote t : List Char} (h : quote.length ≤ t.length + 1) (c : Char)
    (r r' : List Char) : quote.isPrefixOf (c :: (t ++ r).take 2) =
      quote.isPrefixOf (c :: (t ++ r').take 2) := by
  cases quote with
  | nil => rfl
  | cons q quote =>
    rw [List.length_cons] at h
    cases t with
    | nil =>
      cases quote with
      | nil => simp [List.isPrefixOf]
      | cons p quote => simp at h
    | cons a t =>
      cases t with
      | cons b t => rfl
      | nil =>
        cases quote with
        | nil => simp [List.isPrefixOf]
        | cons p quote =>
          cases quote with
          | nil => simp [List.isPrefixOf]
          | cons o quote => simp at h

/-- A string literal is read up to its closing quote, whatever follows. -/
theorem bodyOf_exact {quote cs body rest : List Char} (hquote : quote ≠ [])
    (h : bodyOf quote cs = some (body, rest)) :
    cs = body ++ (quote ++ rest) ∧
      ∀ rest', bodyOf quote (body ++ (quote ++ rest')) = some (body, rest') := by
  fun_induction bodyOf quote cs generalizing body with
  | case1 => cases h
  | case2 c cs hclose =>
    cases h
    obtain ⟨q, quote, rfl⟩ := List.exists_cons_of_ne_nil hquote
    rw [List.isPrefixOf_iff_prefix, List.cons_prefix_cons] at hclose
    obtain ⟨rfl, hclose⟩ := hclose
    obtain ⟨rest, rfl⟩ := hclose.trans (List.take_prefix 2 cs)
    refine ⟨by simp, fun rest' => ?_⟩
    have hlength := hclose.length_le
    rw [List.length_take] at hlength
    rw [List.nil_append, List.cons_append, bodyOf_cons, if_pos]
    · simp
    · rw [List.isPrefixOf_iff_prefix, List.cons_prefix_cons]
      refine ⟨rfl, ?_⟩
      rw [List.prefix_take_iff]
      exact ⟨List.prefix_append quote rest', by omega⟩
  | case3 => cases h
  | case4 => cases h
  | case5 d after hline hclose ih =>
    obtain ⟨⟨body, rest⟩, hr, heq⟩ := Option.map_eq_some_iff.mp h
    cases heq
    obtain ⟨rfl, hexact⟩ := ih hr
    refine ⟨rfl, fun rest' => ?_⟩
    rw [List.cons_append, List.cons_append, bodyOf_cons, if_neg, if_neg hline, if_pos rfl]
    · dsimp only
      rw [hexact]
      rfl
    · rw [← List.append_assoc, ← List.cons_append] at hclose ⊢
      rwa [isPrefixOf_take (by simp only [List.length_cons, List.length_append]; omega) _ rest' rest]
  | case6 c cs hclose hline hescape ih =>
    obtain ⟨⟨body, rest⟩, hr, heq⟩ := Option.map_eq_some_iff.mp h
    cases heq
    obtain ⟨rfl, hexact⟩ := ih hr
    refine ⟨rfl, fun rest' => ?_⟩
    rw [List.cons_append, bodyOf_cons, if_neg, if_neg hline, if_neg hescape, hexact]
    · rfl
    · rw [← List.append_assoc] at hclose ⊢
      rwa [isPrefixOf_take (by rw [List.length_append]; omega) c rest' rest]

@[simp] theorem length_chars (ms : List Mark) : (chars ms).length = ms.length := List.length_map _

theorem chars_drop (ms : List Mark) (n : Nat) : chars (ms.drop n) = (chars ms).drop n :=
  List.map_drop

theorem drop_back {α : Type} (a : α) (as : List α) (n : Nat) :
    (a :: as).drop (as.length + 1 - (as.length - n)) = as.drop n := by
  rcases Nat.le_total n as.length with h | h
  · rw [show as.length + 1 - (as.length - n) = n + 1 by omega, List.drop_succ_cons]
  · rw [List.drop_of_length_le h, List.drop_of_length_le (by rw [List.length_cons]; omega)]

def isQuote (c : Char) : Bool := c = '\'' || c = '"'

theorem isPrefixOf_pair (q : Char) (cs : List Char) :
    [q, q].isPrefixOf (cs.take 2) ↔ cs.head? = some q ∧ cs.tail.head? = some q := by
  rcases cs with _ | ⟨a, _ | ⟨b, cs⟩⟩
  · simp
  · simp [List.isPrefixOf]
  · constructor
    · intro h
      simp only [List.take_succ_cons, List.isPrefixOf_cons_cons, Bool.and_eq_true, beq_iff_eq] at h
      rw [← h.1, ← h.2.1]
      exact ⟨rfl, rfl⟩
    · rintro ⟨ha, hb⟩
      cases ha
      cases hb
      simp [List.isPrefixOf]

theorem quoted?_single {style : QuotePrefix} {q : Char} {cs : List Char}
    (h : ¬ (cs.head? = some q ∧ cs.tail.head? = some q)) :
    quoted? style (q :: cs) =
      (bodyOf [q] cs).map fun r => (.lexeme (.string style r.1), r.2) := by
  unfold quoted?
  dsimp only
  rw [if_neg (mt (isPrefixOf_pair q cs).mp h)]
  rfl

theorem quoted?_triple {style : QuotePrefix} {q : Char} (cs : List Char) :
    quoted? style (q :: q :: q :: cs) =
      (bodyOf [q, q, q] cs).map fun r => (.lexeme (.string style r.1), r.2) := by
  unfold quoted?
  dsimp only
  rw [if_pos ((isPrefixOf_pair q _).mpr ⟨rfl, rfl⟩)]
  rfl

theorem quoted?_exact {style : QuotePrefix} {q : Char} {cs rest : List Char} {p : Piece}
    (hq : isQuote q) (h : quoted? style (q :: cs) = some (p, rest)) :
    ∃ body read, p = .lexeme (.string style body) ∧ body.length < read.length ∧ cs = read ++ rest ∧
      ∀ rest', SameHead rest rest' → quoted? style (q :: (read ++ rest')) = some (p, rest') := by
  by_cases htriple : cs.head? = some q ∧ cs.tail.head? = some q
  · obtain ⟨hhead, htail⟩ := htriple
    obtain ⟨cs, rfl⟩ := List.head?_eq_some_iff.mp hhead
    obtain ⟨cs, rfl⟩ := List.head?_eq_some_iff.mp htail
    rw [quoted?_triple] at h
    obtain ⟨⟨body, rest⟩, hbody, heq⟩ := Option.map_eq_some_iff.mp h
    cases heq
    obtain ⟨rfl, hexact⟩ := bodyOf_exact (List.cons_ne_nil q _) hbody
    refine ⟨body, q :: q :: (body ++ [q, q, q]), rfl, ?_, by simp, fun rest' _ => ?_⟩
    · simp only [List.length_cons, List.length_append]
      omega
    · rw [List.cons_append, List.cons_append, quoted?_triple, List.append_assoc, hexact]
      rfl
  · rw [quoted?_single htriple] at h
    obtain ⟨⟨body, rest⟩, hbody, heq⟩ := Option.map_eq_some_iff.mp h
    cases heq
    obtain ⟨rfl, hexact⟩ := bodyOf_exact (List.cons_ne_nil q []) hbody
    refine ⟨body, body ++ [q], rfl, by simp, by simp, fun rest' hsame => ?_⟩
    rw [quoted?_single]
    · rw [List.append_assoc, hexact]
      rfl
    · rcases body with _ | ⟨b, _ | ⟨d, body⟩⟩
      · have hrest : rest.head?.any (· == q) = false := by
          cases hhead : rest.head? with
          | none => rfl
          | some c =>
            refine Bool.eq_false_iff.mpr fun hc => htriple ⟨rfl, ?_⟩
            rw [List.nil_append, List.singleton_append, List.tail_cons, hhead, eq_of_beq hc]
        have hne (c : Char) (hc : isQuote c = false) : (c == q) = false := by
          refine Bool.eq_false_iff.mpr fun heq => ?_
          rw [eq_of_beq heq, hq] at hc
          cases hc
        have hrest' := hsame.any (hne ' ' rfl) (hne '\n' rfl) hrest
        rintro ⟨-, htail⟩
        rw [List.nil_append, List.singleton_append, List.tail_cons] at htail
        rw [htail] at hrest'
        simp at hrest'
      · exact htriple
      · exact htriple

theorem word?_append {word rest : List Char} (hword : ∀ c ∈ word, Numeral.isNameChar c)
    (hrest : rest.head?.any Numeral.isNameChar = false) :
    word? (word ++ rest) =
      match style? word rest with
      | some style => quoted? style rest
      | none =>
        if isIdentifier word then some (.lexeme (.name (String.ofList word)), rest) else none := by
  unfold word?
  dsimp only
  rw [Numeral.takeWhile_of_head hword hrest, List.drop_left]

theorem style?_eq_some {word rest : List Char} {style : QuotePrefix} (h : style? word rest = some style) :
    ∃ q t, rest = q :: t ∧ isQuote q ∧ ∀ t', style? word (q :: t') = some style := by
  cases rest with
  | nil => cases h
  | cons q t =>
    by_cases hq : isQuote q
    · exact ⟨q, t, rfl, hq, fun t' => h⟩
    · unfold style? at h
      rw [if_neg (by simpa [isQuote] using hq)] at h
      cases h

theorem style?_same {word rest rest' : List Char} (hsame : SameHead rest rest')
    (h : style? word rest = none) : style? word rest' = none := by
  cases hstyle : style? word rest' with
  | none => rfl
  | some style =>
    obtain ⟨q, t, rfl, hq, hquoted⟩ := style?_eq_some hstyle
    rcases hsame with heq | hinert
    · obtain ⟨t', rfl⟩ := List.head?_eq_some_iff.mp heq.symm
      rw [hquoted] at h
      cases h
    · rcases hinert q rfl with rfl | rfl <;> cases hq

/-- A word goes on up to a character that belongs to no name. -/
theorem word?_exact {c : Char} {cs rest : List Char} {p : Piece} (hc : Numeral.isNameChar c)
    (h : word? (c :: cs) = some (p, rest)) :
    ∃ read, cs = read ++ rest ∧
      (∀ style body, p = .lexeme (.string style body) → body.length ≤ read.length) ∧
      ∀ rest', SameHead rest rest' → word? (c :: (read ++ rest')) = some (p, rest') := by
  have hall : ∀ d ∈ c :: cs.takeWhile Numeral.isNameChar, Numeral.isNameChar d :=
    List.forall_mem_cons.mpr ⟨hc, fun d hd => List.mem_takeWhile_imp hd⟩
  have hcs : cs = cs.takeWhile Numeral.isNameChar ++ cs.dropWhile Numeral.isNameChar :=
    (List.takeWhile_append_dropWhile).symm
  have hhead := Numeral.head_dropWhile (p := Numeral.isNameChar) cs
  generalize cs.takeWhile Numeral.isNameChar = word at hall hcs
  generalize cs.dropWhile Numeral.isNameChar = after at hcs hhead
  subst hcs
  rw [← List.cons_append, word?_append hall hhead] at h
  cases hstyle : style? (c :: word) after with
  | none =>
    rw [hstyle] at h
    dsimp only at h
    split at h
    · rename_i hname
      cases h
      refine ⟨word, rfl, nofun, fun rest' hsame => ?_⟩
      rw [← List.cons_append, word?_append hall (hsame.any (by decide) (by decide) hhead),
        style?_same hsame hstyle]
      dsimp only
      rw [if_pos hname]
    · cases h
  | some style =>
    rw [hstyle] at h
    obtain ⟨q, t, rfl, hq, hquoted⟩ := style?_eq_some hstyle
    obtain ⟨body, read, rfl, hbody, rfl, hexact⟩ := quoted?_exact hq h
    refine ⟨word ++ q :: read, by simp, fun style body heq => ?_, fun rest' hsame => ?_⟩
    · cases heq
      rw [List.length_append, List.length_cons]
      omega
    have hhead' : (q :: (read ++ rest')).head?.any Numeral.isNameChar = false := hhead
    rw [List.append_assoc, List.cons_append, ← List.cons_append, word?_append hall hhead', hquoted]
    exact hexact rest' hsame

theorem symbols_plain : symbols.all fun s => !s.isEmpty && s.all fun c => c ≠ ' ' && c ≠ '\n' := by
  decide

/-- Symbols hold no blanks, so none goes on in an inert text. -/
theorem symbol_of_follows {read rest rest' u : List Char} (hu : u ∈ symbols)
    (hfollows : Follows rest rest') (h : u <+: read ++ rest') : u <+: read ++ rest := by
  obtain ⟨z, y, y', rfl, rfl, hy'⟩ := hfollows.shared
  rw [← List.append_assoc] at h ⊢
  have h' := h
  rcases List.prefix_or_prefix_of_prefix h (List.prefix_append (read ++ z) y') with h | h
  · exact h.trans (List.prefix_append _ _)
  · obtain ⟨t, rfl⟩ := h
    cases t with
    | nil =>
      rw [List.append_nil]
      exact List.prefix_append _ _
    | cons d t =>
      have hd : y'.head? = some d := by
        obtain ⟨t', ht'⟩ := (List.prefix_append_right_inj _).mp h'
        rw [← ht']
        rfl
      have hplain := List.all_eq_true.mp symbols_plain _ hu
      rw [Bool.and_eq_true, List.all_eq_true] at hplain
      have hd' := hplain.2 d (List.mem_append_right _ List.mem_cons_self)
      rcases hy' d hd with rfl | rfl <;> simp at hd'

theorem symbol?_exact {c : Char} {cs s : List Char} (h : symbol? (c :: cs) = some s) :
    ∃ read rest, s = c :: read ∧ cs = read ++ rest ∧
      ∀ rest', Follows rest rest' → symbol? (c :: (read ++ rest')) = some s := by
  unfold symbol? at h
  obtain ⟨hstart, before, after, hsymbols, hbefore⟩ := List.find?_eq_some_iff_append.mp h
  rw [List.isPrefixOf_iff_prefix] at hstart
  have hmem : s ∈ symbols := List.mem_of_find?_eq_some h
  obtain ⟨d, read, rfl⟩ : ∃ d read, s = d :: read := by
    refine List.exists_cons_of_ne_nil ?_
    rintro rfl
    exact absurd hmem (by decide)
  obtain ⟨rest, heq⟩ := hstart
  cases heq
  refine ⟨read, rest, rfl, rfl, fun rest' hfollows => ?_⟩
  unfold symbol?
  refine List.find?_eq_some_iff_append.mpr ⟨?_, before, after, hsymbols, fun u hu => ?_⟩
  · rw [List.isPrefixOf_iff_prefix]
    exact List.prefix_append (c :: read) rest'
  · have hu' := hbefore u hu
    rw [Bool.not_eq_true', Bool.eq_false_iff, ne_eq, List.isPrefixOf_iff_prefix] at hu' ⊢
    have humem : u ∈ symbols := hsymbols ▸ List.mem_append_left _ hu
    intro hstart
    exact hu' (symbol_of_follows humem hfollows (show u <+: (c :: read) ++ rest' from hstart))

theorem classOf_of_begins {c : Char} {cs cs' : List Char}
    (h : Numeral.begins c cs' = Numeral.begins c cs) : classOf c cs' = classOf c cs := by
  unfold classOf
  rw [h]

theorem classOf_same {c : Char} {cs cs' : List Char} (hsame : SameHead cs cs')
    (h : classOf c cs ≠ .number) : classOf c cs' = classOf c cs := by
  by_cases hbegins : Numeral.begins c cs
  · have hclass : classOf c cs' = classOf c cs ∨ classOf c cs = .number := by
      unfold classOf
      split_ifs <;> simp
    exact hclass.resolve_right h
  · refine classOf_of_begins ?_
    unfold Numeral.begins at hbegins ⊢
    rw [Bool.not_eq_true, Bool.or_eq_false_iff] at hbegins
    rw [Bool.or_eq_false_iff.mpr hbegins, hbegins.1, Bool.false_or]
    rcases Bool.and_eq_false_iff.mp hbegins.2 with hc | hhead
    · rw [hc, Bool.false_and]
    · rw [hsame.any (by decide) (by decide) hhead, Bool.and_false]

theorem classOf_cases (c : Char) (cs : List Char) :
    match classOf c cs with
    | .quote => isQuote c
    | .number => Numeral.begins c cs
    | .word => Numeral.isNameChar c
    | _ => True := by
  unfold classOf
  split_ifs <;> simp_all [isQuote]

/-- How a piece is read does not depend on what follows it. -/
theorem piece?_exact {c : Char} {cs rest : List Char} {p : Piece} (h : piece? c cs = some (p, rest)) :
    ∃ read, cs = read ++ rest ∧
      (∀ style body, p = .lexeme (.string style body) → body.length ≤ read.length) ∧
      ∀ rest', Follows rest rest' →
        (classOf c cs = .comment → rest' = [] ∨ rest'.head? = some '\n') →
        (classOf c cs = .escape → rest' ≠ []) →
        piece? c (read ++ rest') = some (p, rest') := by
  have hcases := classOf_cases c cs
  unfold piece? at h ⊢
  have hsame {read rest' : List Char} (hsame : SameHead cs (read ++ rest'))
      (hclass : classOf c cs ≠ .number) :
      pieceOf c (read ++ rest') (classOf c (read ++ rest')) =
        pieceOf c (read ++ rest') (classOf c cs) := by
    rw [classOf_same hsame hclass]
  cases hclass : classOf c cs with
  | skip | newline =>
    rw [hclass] at h hsame
    cases h
    refine ⟨[], rfl, nofun, fun rest' hfollows _ _ => ?_⟩
    rw [hsame (hfollows.append []) nofun]
    rfl
  | comment =>
    rw [hclass] at h hsame
    cases h
    have hall : ∀ d ∈ cs.takeWhile (· ≠ '\n'), d ≠ '\n' := fun d hd =>
      of_decide_eq_true (List.mem_takeWhile_imp (p := (· ≠ '\n')) hd)
    have hcs : cs = cs.takeWhile (· ≠ '\n') ++ cs.dropWhile (· ≠ '\n') :=
      (List.takeWhile_append_dropWhile).symm
    generalize cs.takeWhile (· ≠ '\n') = read at hall hcs
    generalize cs.dropWhile (· ≠ '\n') = rest at hcs
    subst hcs
    refine ⟨read, rfl, nofun, fun rest' hfollows hline _ => ?_⟩
    have hdrop : rest'.dropWhile (· ≠ '\n') = rest' := by
      rcases hline rfl with rfl | hhead
      · rfl
      · obtain ⟨t, rfl⟩ := List.head?_eq_some_iff.mp hhead
        rfl
    rw [hsame (hfollows.append read) nofun]
    unfold pieceOf
    dsimp only
    rw [List.dropWhile_append_of_pos (by simpa using hall), hdrop]
  | escape =>
    rw [hclass] at h hsame
    unfold pieceOf at h
    dsimp only at h
    split at h
    · rename_i hline
      cases h
      rw [Bool.and_eq_true, decide_eq_true_eq] at hline
      obtain ⟨rest, rfl⟩ := List.head?_eq_some_iff.mp hline.1
      refine ⟨['\n'], rfl, nofun, fun rest' hfollows _ hrest' => ?_⟩
      have hne := hrest' rfl
      rw [hsame (hfollows.append ['\n']) nofun]
      simp [pieceOf, hne]
    · cases h
  | quote =>
    rw [hclass] at h hsame hcases
    obtain ⟨body, read, rfl, hbody, rfl, hexact⟩ := quoted?_exact hcases h
    refine ⟨read, rfl, fun style body heq => ?_, fun rest' hfollows _ _ => ?_⟩
    · cases heq
      omega
    · rw [hsame (hfollows.append read) nofun]
      exact hexact rest' hfollows.head
  | number =>
    rw [hclass] at h hcases
    obtain ⟨⟨v, rest⟩, hrun, heq⟩ := Option.map_eq_some_iff.mp h
    cases heq
    obtain ⟨read, rfl, hhead, hexact⟩ := Numeral.read?_exact hcases hrun
    refine ⟨read, rfl, nofun, fun rest' hfollows _ _ => ?_⟩
    rw [classOf_of_begins, hclass]
    · exact congrArg (Option.map _) (hexact rest' hfollows)
    · exact Numeral.begins_append hcases hhead rest'
  | word =>
    rw [hclass] at h hsame hcases
    obtain ⟨read, rfl, hbody, hexact⟩ := word?_exact hcases h
    refine ⟨read, rfl, hbody, fun rest' hfollows _ _ => ?_⟩
    rw [hsame (hfollows.append read) nofun]
    exact hexact rest' hfollows.head
  | symbol =>
    rw [hclass] at h hsame
    obtain ⟨s, hrun, heq⟩ := Option.map_eq_some_iff.mp h
    obtain ⟨read, after, rfl, rfl, hexact⟩ := symbol?_exact hrun
    have hdrop (t : List Char) : (c :: (read ++ t)).drop (c :: read).length = t := by
      rw [← List.cons_append, List.drop_left]
    rw [hdrop] at heq
    cases heq
    refine ⟨read, rfl, nofun, fun rest' hfollows _ _ => ?_⟩
    rw [hsame (hfollows.append read) nofun]
    unfold pieceOf
    dsimp only
    rw [hexact rest' hfollows, Option.map_some, hdrop]

theorem stringBody_eq {quote : List Char} (hquote : quote ≠ []) {fuel : Nat} {ms : List Mark}
    (hfuel : ms.length < fuel) :
    stringBody quote fuel ms =
      (bodyOf quote (chars ms)).map fun r => (r.1, ms.drop (ms.length - r.2.length)) := by
  have hlength {cs : List Char} {r : List Char × List Char} (h : bodyOf quote cs = some r) :
      r.2.length ≤ cs.length := by
    rw [(bodyOf_exact hquote h).1]
    simp only [List.length_append]
    omega
  induction fuel generalizing ms with
  | zero => exact absurd hfuel (Nat.not_lt_zero _)
  | succ fuel ih =>
    cases ms with
    | nil => rfl
    | cons m ms =>
      rw [List.length_cons] at hfuel
      have hchars (m : Mark) (ms : List Mark) : chars (m :: ms) = m.char :: chars ms := rfl
      have htake : chars (ms.take 2) = (chars ms).take 2 := List.map_take
      unfold stringBody
      rw [hchars, bodyOf_cons, htake]
      split
      · rw [Option.map_some, List.length_drop, length_chars, List.length_cons, drop_back]
      split
      · rfl
      split
      · cases ms with
        | nil => rfl
        | cons n ms =>
          rw [List.length_cons] at hfuel
          dsimp only
          rw [ih (by omega : ms.length < fuel), hchars]
          dsimp only
          cases hbody : bodyOf quote (chars ms) with
          | none => rfl
          | some r =>
            have hr := hlength hbody
            rw [length_chars] at hr
            simp only [Option.map_some, List.length_cons]
            rw [show ms.length + 1 + 1 - r.2.length = ms.length - r.2.length + 1 + 1 by omega]
            rfl
      · rw [ih (by omega : ms.length < fuel)]
        cases hbody : bodyOf quote (chars ms) with
        | none => rfl
        | some r =>
          have hr := hlength hbody
          rw [length_chars] at hr
          simp only [Option.map_some, List.length_cons]
          rw [show ms.length + 1 - r.2.length = ms.length - r.2.length + 1 by omega]
          rfl

/-- The lexeme that a piece gives, if it gives one, in front of the others. -/
def placed (m : Mark) (ms : List Mark) (left : Nat) (kind : Option LexemeKind) (ls : List Lexeme) :
    List Lexeme :=
  match kind with
  | some k => ⟨k, m.offset, stopOf m.offset ((m :: ms).take (ms.length + 1 - left))⟩ :: ls
  | none => ls

section

variable {fuel : Nat} {pending : List Char} {m : Mark} {ms rest : List Mark}

theorem lexFrom_skipped (hrest : rest <:+ ms) :
    lexFrom fuel pending rest =
      (lexFrom fuel pending (ms.drop (ms.length - (chars rest).length))).map
        (placed m ms (chars rest).length none) := by
  rw [length_chars, ← List.suffix_iff_eq_drop.mp hrest]
  cases lexFrom fuel pending rest <;> rfl

theorem lexFrom_placed (hrest : rest <:+ ms) (kind : LexemeKind) :
    (lexFrom fuel pending rest).map
        (⟨kind, m.offset, stopOf m.offset ((m :: ms).take (ms.length + 1 - rest.length))⟩ :: ·) =
      (lexFrom fuel pending (ms.drop (ms.length - (chars rest).length))).map
        (placed m ms (chars rest).length (some kind)) := by
  rw [length_chars, ← List.suffix_iff_eq_drop.mp hrest]
  rfl

end

/-- The body of a string literal from its opening quote on, and what follows the literal. -/
def quotedMarks : List Mark → Option (List Char × List Mark)
  | q :: after =>
    let quote := if [q.char, q.char].isPrefixOf (chars (after.take 2))
      then [q.char, q.char, q.char] else [q.char]
    stringBody quote (after.length + 1) (after.drop (quote.length - 1))
  | [] => none

theorem suffix_of_bodyOf {quote cs body rest : List Char} (hquote : quote ≠ [])
    (h : bodyOf quote cs = some (body, rest)) : rest <:+ cs :=
  ⟨body ++ quote, by rw [List.append_assoc, ← (bodyOf_exact hquote h).1]⟩

theorem quotedMarks_cons (q : Mark) (after : List Mark) :
    ∃ quote : List Char, quote ≠ [] ∧
      quote = (if [q.char, q.char].isPrefixOf ((chars after).take 2)
        then [q.char, q.char, q.char] else [q.char]) ∧
      quotedMarks (q :: after) =
        (bodyOf quote (chars (after.drop (quote.length - 1)))).map fun r =>
          (r.1, (after.drop (quote.length - 1)).drop
            ((after.drop (quote.length - 1)).length - r.2.length)) := by
  refine ⟨_, ?_, rfl, ?_⟩
  · split <;> exact List.cons_ne_nil _ _
  · have htake : chars (after.take 2) = (chars after).take 2 := List.map_take
    rw [quotedMarks, htake, stringBody_eq]
    · split <;> exact List.cons_ne_nil _ _
    · rw [List.length_drop]
      omega

theorem quoted?_eq (style : QuotePrefix) (ms : List Mark) :
    quoted? style (chars ms) =
      (quotedMarks ms).map fun r => (.lexeme (.string style r.1), chars r.2) := by
  cases ms with
  | nil => rfl
  | cons q after =>
    obtain ⟨quote, hquote, heq, hmarks⟩ := quotedMarks_cons q after
    rw [hmarks, Option.map_map, show chars (q :: after) = q.char :: chars after from rfl, quoted?,
      ← heq, ← chars_drop]
    refine Option.map_congr fun r hr => ?_
    have hsuffix := suffix_of_bodyOf hquote hr
    dsimp only [Function.comp_apply]
    rw [chars_drop, ← length_chars, ← List.suffix_iff_eq_drop.mp hsuffix]

theorem match_quotedMarks {α : Type} (q : Mark) (after : List Mark)
    (f : List Char → List Mark → Option α) :
    (let quote := if [q.char, q.char].isPrefixOf (chars (after.take 2))
        then [q.char, q.char, q.char] else [q.char];
      match stringBody quote (after.length + 1) (after.drop (quote.length - 1)) with
      | some (body, rest) => f body rest
      | none => none) = (quotedMarks (q :: after)).bind fun r => f r.1 r.2 := by
  rw [quotedMarks]
  dsimp only
  split
  · rename_i h
    rw [h, Option.bind_some]
  · rename_i h
    rw [h, Option.bind_none]

theorem quotedMarks_suffix {ms rest : List Mark} {body : List Char}
    (h : quotedMarks ms = some (body, rest)) : rest <:+ ms.drop 1 := by
  cases ms with
  | nil => cases h
  | cons q after =>
    obtain ⟨quote, -, -, hmarks⟩ := quotedMarks_cons q after
    rw [hmarks] at h
    obtain ⟨r, -, heq⟩ := Option.map_eq_some_iff.mp h
    cases heq
    exact (List.drop_suffix _ _).trans (List.drop_suffix _ after)

theorem lexFrom_cons (fuel : Nat) (pending : List Char) (m : Mark) (ms : List Mark) :
    lexFrom (fuel + 1) pending (m :: ms) =
      (piece? m.char (chars ms)).bind fun r =>
        (settle pending r.1).bind fun t =>
          (lexFrom fuel t.2 (ms.drop (ms.length - r.2.length))).map
            (placed m ms r.2.length t.1) := by
  conv =>
    lhs
    unfold lexFrom
  unfold piece? classOf
  by_cases hskip : m.char = ' ' || m.char = '\t' || m.char = '\x0c'
  · rw [if_pos hskip, if_pos hskip]
    exact lexFrom_skipped List.suffix_rfl
  rw [if_neg hskip, if_neg hskip]
  by_cases hline : m.char = '\n'
  · rw [if_pos hline, if_pos hline]
    cases hpending : pending.isEmpty with
    | true =>
      refine (lexFrom_placed (m := m) List.suffix_rfl .newline).trans ?_
      rw [pieceOf, Option.bind_some, settle, hpending, if_pos rfl]
      rfl
    | false =>
      refine (lexFrom_skipped (m := m) List.suffix_rfl).trans ?_
      rw [pieceOf, Option.bind_some, settle, hpending]
      rfl
  rw [if_neg hline, if_neg hline]
  by_cases hcomment : m.char = '#'
  · have hrest : ms.dropWhile (fun n => n.char ≠ '\n') <:+ ms := List.dropWhile_suffix _
    have hchars : chars (ms.dropWhile fun n => n.char ≠ '\n') = (chars ms).dropWhile (· ≠ '\n') :=
      (List.dropWhile_map (p := (· ≠ '\n')) (f := Mark.char)).symm
    rw [if_pos hcomment, if_pos hcomment, lexFrom_skipped hrest, hchars]
    rfl
  rw [if_neg hcomment, if_neg hcomment]
  by_cases hescape : m.char = '\\'
  · rw [if_pos hescape, if_pos hescape]
    cases ms with
    | nil => rfl
    | cons n rest =>
      have hrest : rest <:+ n :: rest := List.suffix_cons n rest
      have hempty : (chars rest).isEmpty = rest.isEmpty := List.isEmpty_map
      have hhead : decide (some n.char = some '\n') = decide (n.char = '\n') := by simp
      dsimp only [pieceOf]
      rw [show chars (n :: rest) = n.char :: chars rest from rfl, List.head?_cons, List.tail_cons,
        hempty, hhead, lexFrom_skipped (m := m) hrest]
      split <;> rfl
  rw [if_neg hescape, if_neg hescape]
  by_cases hquote : m.char = '\'' || m.char = '"'
  · rw [if_pos hquote, if_pos hquote, pieceOf,
      show m.char :: chars ms = chars (m :: ms) from rfl, quoted?_eq]
    refine (match_quotedMarks m ms _).trans ?_
    cases hmarks : quotedMarks (m :: ms) with
    | none => rfl
    | some r => exact lexFrom_placed (quotedMarks_suffix hmarks) _
  rw [if_neg hquote, if_neg hquote]
  have hbegins : Numeral.begins m.char (chars ms) =
      (m.char.isDigit || (m.char = '.' && ms.head?.any fun n => n.char.isDigit)) := by
    cases ms <;> rfl
  by_cases hnumber : m.char.isDigit || (m.char = '.' && ms.head?.any fun n => n.char.isDigit)
  · rw [if_pos hnumber, hbegins, if_pos hnumber]
    cases hread : Numeral.read? (m.char :: chars ms) with
    | none =>
      rw [pieceOf, hread]
      rfl
    | some r =>
      obtain ⟨read, hrest, -, -⟩ := Numeral.read?_exact (hbegins.trans hnumber) hread
      have hlength : (chars (ms.drop (ms.length - r.2.length))) = r.2 := by
        rw [chars_drop, ← length_chars, hrest, List.length_append, Nat.add_sub_cancel, List.drop_left]
      rw [pieceOf, hread]
      refine (lexFrom_placed (List.drop_suffix (ms.length - r.2.length) ms) (.number r.1)).trans ?_
      rw [hlength]
      rfl
  rw [if_neg hnumber, hbegins, if_neg hnumber]
  by_cases hname : Numeral.isNameChar m.char
  · rw [if_pos hname, if_pos hname, pieceOf, word?]
    dsimp only
    obtain ⟨w, hw⟩ : ∃ w, (m.char :: chars ms).takeWhile Numeral.isNameChar = m.char :: w :=
      ⟨_, List.takeWhile_cons_of_pos hname⟩
    rw [hw, List.length_cons, Nat.add_sub_cancel, List.drop_succ_cons, ← chars_drop]
    have hrest := List.drop_suffix w.length ms
    generalize ms.drop w.length = rest at hrest
    have hstyle : style? (m.char :: w) (chars rest) =
        if rest.head?.any fun n => n.char = '\'' || n.char = '"' then
          QuotePrefix.ofLetters? (m.char :: w)
        else none := by
      cases rest <;> rfl
    rw [← hstyle]
    cases style? (m.char :: w) (chars rest) with
    | none =>
      dsimp only
      split
      · exact lexFrom_placed hrest _
      · rfl
    | some style =>
      cases rest with
      | nil => rfl
      | cons q after =>
        dsimp only
        rw [quoted?_eq]
        refine (match_quotedMarks q after _).trans ?_
        cases hmarks : quotedMarks (q :: after) with
        | none => rfl
        | some r =>
          have hsuffix := (quotedMarks_suffix hmarks).trans (List.drop_suffix 1 _)
          exact lexFrom_placed (hsuffix.trans hrest) _
  rw [if_neg hname, if_neg hname, pieceOf]
  cases hsymbol : symbol? (m.char :: chars ms) with
  | none => rfl
  | some symbol =>
    obtain ⟨read, after, rfl, -, -⟩ := symbol?_exact hsymbol
    have hrest := List.drop_suffix read.length ms
    rw [Option.map_some, Option.bind_some, List.length_cons, List.drop_succ_cons, ← chars_drop]
    dsimp only [settle]
    rw [String.toList_ofList]
    cases track (m.char :: read) pending with
    | none => rfl
    | some next => exact lexFrom_placed hrest _

end Stencil.Expr
