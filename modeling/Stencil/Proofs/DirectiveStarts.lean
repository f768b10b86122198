import Stencil.Proofs.Spelling

/-!
# Where directives start

An `@` outside of comments, interpolations and other directives starts a directive if the whole
word behind it is a keyword, in any case, and no word goes on in front of it; behind a directive,
or if the keyword is a closer or branch and the word does not look like a part of an address, a
word may end in front of it. Any other `@` is literal text.
-/

namespace Stencil

open Text (Position)

namespace Keyword

theorem ofText?_eq_some {s : String} {k : Keyword} : ofText? s = some k ↔ k.text = s := by
  constructor
  · intro h
    simpa using List.find?_some h
  · rintro rfl
    cases k with
    | opening b | closing b => cases b <;> rfl
    | _ => rfl

end Keyword

namespace Segment

/-- `word` is all of the word with which the text `word ++ rest` begins. -/
structure IsWholeWord (word rest : List Char) : Prop where
  starts : ∃ c, word.head? = some c ∧ (Text.isAsciiLetter c ∨ c = '_')
  goesOn : ∀ c ∈ word.tail, Text.isWord c
  ends : ∀ c ∈ rest.head?, Text.isWord c = false

/-- An `@` behind the character `previous`, or right behind a directive, is to start the directive
`k` when `word` stands behind it, in front of `rest`. -/
structure Starts (previous : Option Char) (adjacent : Prop) (word : List Char) (k : Keyword)
    (rest : List Char) : Prop where
  whole : IsWholeWord word rest
  keyword : word.map Char.toLower = k.text.toList
  place : (∀ c ∈ previous, Text.isWord c = false) ∨ adjacent ∨
    (k = .elseIf ∨ k = .otherwise ∨ ∃ b, k = .closing b) ∧
      rest.head? ≠ some '.' ∧ rest.head? ≠ some '-'

/-- Behind blanks, an argument list is opened here. -/
def OpensArguments (rest : List Char) : Prop :=
  ∃ gap body, (∀ c ∈ gap, c = ' ' ∨ c = '\t') ∧ rest = gap ++ '(' :: body

def keyword? : Segment → Option Keyword
  | bare _ k | withArguments _ k _ _ => some k
  | _ => none

theorem keywordOf_eq_some {word : List Char} {k : Keyword} :
    keywordOf word = some k ↔ word.map Char.toLower = k.text.toList := by
  rw [keywordOf, Keyword.ofText?_eq_some]
  constructor
  · intro h
    rw [h, String.toList_ofList]
  · intro h
    rw [h, String.ofList_toList]

theorem IsWholeWord.leadingWord {word rest : List Char} (h : IsWholeWord word rest) :
    leadingWord (word ++ rest) = word := by
  obtain ⟨⟨c, hc, hstarts⟩, hgoesOn, hends⟩ := h
  cases word with
  | nil => cases hc
  | cons d word =>
    cases hc
    have hword : ∀ e ∈ word, Text.isWord e := hgoesOn
    have hrest : rest.takeWhile Text.isWord = [] := by
      cases rest with
      | nil => rfl
      | cons e rest => exact List.takeWhile_cons_of_neg (by simp [hends e rfl])
    rw [List.cons_append, Segment.leadingWord, if_pos (by simpa using hstarts),
      List.takeWhile_append_of_pos hword, hrest, List.append_nil]

theorem isWholeWord_leadingWord {cs : List Char} (h : leadingWord cs ≠ []) :
    IsWholeWord (leadingWord cs) (cs.drop (leadingWord cs).length) := by
  cases cs with
  | nil => exact absurd rfl h
  | cons c cs =>
    by_cases hc : Text.isAsciiLetter c || c = '_'
    · have hword : leadingWord (c :: cs) = c :: cs.takeWhile Text.isWord := if_pos hc
      have hdrop : cs.drop (cs.takeWhile Text.isWord).length = cs.dropWhile Text.isWord := by
        have happend := List.takeWhile_append_dropWhile (p := Text.isWord) (l := cs)
        calc cs.drop (cs.takeWhile Text.isWord).length
          _ = (cs.takeWhile Text.isWord ++ cs.dropWhile Text.isWord).drop
              (cs.takeWhile Text.isWord).length := by rw [happend]
          _ = cs.dropWhile Text.isWord := List.drop_left
      rw [hword, List.length_cons, List.drop_succ_cons, hdrop]
      refine ⟨⟨c, rfl, by simpa using hc⟩, fun d hd => ?_, fun d hd => ?_⟩
      · exact List.all_eq_true.mp List.all_takeWhile d hd
      · have hhead := List.head?_dropWhile_not Text.isWord cs
        rw [hd] at hhead
        simpa using hhead
    · exact absurd (if_neg hc) h

section

variable {previous : Option Char} {adjacent : Bool} {cs word rest : List Char} {k : Keyword}

theorem mayBeGlued_iff : k.mayBeGlued ↔ k = .elseIf ∨ k = .otherwise ∨ ∃ b, k = .closing b := by
  cases k <;> simp [Keyword.mayBeGlued]

theorem mayStart_iff : mayStart previous adjacent k rest ↔
    (∀ c ∈ previous, Text.isWord c = false) ∨ adjacent ∨
      (k = .elseIf ∨ k = .otherwise ∨ ∃ b, k = .closing b) ∧
        rest.head? ≠ some '.' ∧ rest.head? ≠ some '-' := by
  rw [← mayBeGlued_iff]
  have hprevious : (!previous.any Text.isWord) = true ↔ ∀ c ∈ previous, Text.isWord c = false := by
    cases previous <;> simp
  simp only [mayStart, Bool.or_eq_true, Bool.and_eq_true, decide_eq_true_eq, hprevious, and_assoc]
  rw [or_left_comm, or_assoc]

/-- An `@` is to start a directive exactly if the word that is read there is its keyword. -/
theorem starts_iff : (∃ word rest, cs = word ++ rest ∧ Starts previous adjacent word k rest) ↔
    keywordOf (leadingWord cs) = some k ∧
      mayStart previous adjacent k (cs.drop (leadingWord cs).length) := by
  constructor
  · rintro ⟨word, rest, rfl, hwhole, hkeyword, hplace⟩
    rw [hwhole.leadingWord, List.drop_left]
    exact ⟨keywordOf_eq_some.mpr hkeyword, mayStart_iff.mpr hplace⟩
  · rintro ⟨hkeyword, hplace⟩
    have hne : leadingWord cs ≠ [] := by
      intro hnil
      rw [hnil] at hkeyword
      cases hkeyword
    have hcs := List.prefix_iff_eq_append.mp (leadingWord_is_beginning cs)
    exact ⟨leadingWord cs, _, hcs.symm, isWholeWord_leadingWord hne,
      keywordOf_eq_some.mp hkeyword, mayStart_iff.mp hplace⟩

theorem first_at (previous : Option Char) (adjacent : Bool) (cs : List Char) :
    first previous adjacent '@' cs =
      match keywordOf (leadingWord cs) with
      | some k =>
        if mayStart previous adjacent k (cs.drop (leadingWord cs).length) then
          directive (leadingWord cs) k (cs.drop (leadingWord cs).length)
        else .ok (literal '@')
      | none => .ok (literal '@') := rfl

/-- The directive `k` was read with its argument list, if it takes one. -/
theorem directive_ok {s : Segment} (h : directive word k rest = .ok s) :
    s.keyword? = some k ∧ (k.takesArguments → OpensArguments rest) := by
  unfold directive at h
  split at h
  · dsimp only at h
    generalize hgap : rest.takeWhile (fun c => c = ' ' || c = '\t') = gap at h
    obtain ⟨hblank, hrest⟩ := blanks_of_text hgap
    split at h
    · rename_i body hopens
      rw [hopens] at hrest
      split at h
      · cases h
        exact ⟨rfl, fun _ => ⟨gap, body, hblank, hrest.symm⟩⟩
      · cases h
    · cases h
  · rename_i hk
    cases h
    exact ⟨rfl, fun htakes => absurd htakes hk⟩

theorem OpensArguments.drop_blanks (h : OpensArguments rest) :
    ∃ body, rest.drop (rest.takeWhile fun c => c = ' ' || c = '\t').length = '(' :: body := by
  obtain ⟨gap, body, hblank, rfl⟩ := h
  refine ⟨body, ?_⟩
  rw [List.takeWhile_append_of_pos (by simpa using hblank), List.takeWhile_cons_of_neg (by decide),
    List.append_nil, List.drop_left]

theorem directive_error {f : Fault} (h : directive word k rest = .error f) :
    k.takesArguments ∧ ((¬ OpensArguments rest ∧ f = .missingArguments k) ∨
      OpensArguments rest ∧ ∃ passed, f = .unclosedArguments k passed) := by
  unfold directive at h
  split at h
  · rename_i hk
    dsimp only at h
    generalize hgap : rest.takeWhile (fun c => c = ' ' || c = '\t') = gap at h
    split at h
    · rename_i body hopens
      split at h
      · cases h
      · cases h
        obtain ⟨hblank, hrest⟩ := blanks_of_text hgap
        rw [hopens] at hrest
        exact ⟨hk, .inr ⟨⟨gap, body, hblank, hrest.symm⟩, _, rfl⟩⟩
    · rename_i hopens
      cases h
      refine ⟨hk, .inl ⟨fun hargs => ?_, rfl⟩⟩
      obtain ⟨body, hbody⟩ := hargs.drop_blanks
      rw [hgap] at hbody
      exact hopens body hbody
  · cases h

/-- What is read at an `@` is the directive that is to start there, or literal text if none is. -/
theorem first_at_ok {s : Segment} (h : first previous adjacent '@' cs = .ok s) :
    (∀ k, s.keyword? = some k ↔
      ∃ word rest, cs = word ++ rest ∧ Starts previous adjacent word k rest) ∧
      (s.keyword? = none → s = literal '@') := by
  rw [first_at] at h
  simp only [starts_iff]
  split at h
  · rename_i k hkeyword
    rw [hkeyword]
    split at h
    · rename_i hstarts
      obtain ⟨hk, -⟩ := directive_ok h
      rw [hk]
      refine ⟨fun k' => ⟨?_, fun hk' => hk'.1⟩, nofun⟩
      rintro ⟨rfl⟩
      exact ⟨rfl, hstarts⟩
    · rename_i hstarts
      cases h
      refine ⟨fun k' => ⟨nofun, ?_⟩, fun _ => rfl⟩
      rintro ⟨⟨rfl⟩, hk⟩
      exact absurd hk hstarts
  · rename_i hkeyword
    cases h
    rw [hkeyword]
    exact ⟨fun k => ⟨nofun, nofun⟩, fun _ => rfl⟩

/-- The text at an `@` is at fault only where a directive is to start that takes arguments. -/
theorem first_at_error {f : Fault} (h : first previous adjacent '@' cs = .error f) :
    ∃ word k rest, cs = word ++ rest ∧ Starts previous adjacent word k rest ∧ k.takesArguments ∧
      ((¬ OpensArguments rest ∧ f = .missingArguments k) ∨
        OpensArguments rest ∧ ∃ passed, f = .unclosedArguments k passed) := by
  rw [first_at] at h
  split at h
  · rename_i k hkeyword
    split at h
    · rename_i hmay
      obtain ⟨word, rest, rfl, hstarts⟩ := starts_iff.mpr ⟨hkeyword, hmay⟩
      rw [hstarts.whole.leadingWord, List.drop_left] at h
      exact ⟨word, k, rest, rfl, hstarts, directive_error h⟩
    · cases h
  · cases h

/-- Where a directive is to start that takes arguments, there is a fault if none are opened. -/
theorem first_at_missing (h : Starts previous adjacent word k rest) (hk : k.takesArguments)
    (hnone : ¬ OpensArguments rest) :
    first previous adjacent '@' (word ++ rest) = .error (.missingArguments k) := by
  obtain ⟨hkeyword, hstarts⟩ := starts_iff.mp ⟨word, rest, rfl, h⟩
  rw [first_at, hkeyword]
  dsimp only
  rw [if_pos hstarts, h.whole.leadingWord, List.drop_left]
  cases hread : directive word k rest with
  | ok s => exact absurd ((directive_ok hread).2 hk) hnone
  | error f =>
    obtain ⟨-, ⟨-, rfl⟩ | ⟨hopens, -⟩⟩ := directive_error hread
    · rfl
    · exact absurd hopens hnone

end

def lastRead (previous : Option Char) (done : List Segment) : Option Char :=
  (done.flatMap source).getLast?.or previous

def behindDirective (adjacent : Bool) (done : List Segment) : Bool :=
  (done.getLast?.map isDirective).getD adjacent

theorem lastRead_cons (previous : Option Char) (s : Segment) (done : List Segment) :
    lastRead previous (s :: done) = lastRead s.source.getLast? done := by
  have hne : s.source ≠ [] := List.ne_nil_of_length_pos s.source_length_pos
  have hlast : s.source.getLast?.isSome := by simpa using hne
  rw [lastRead, List.flatMap_cons, List.getLast?_append, Option.or_assoc,
    Option.or_of_isSome hlast, lastRead]

theorem behindDirective_cons (adjacent : Bool) (s : Segment) (done : List Segment) :
    behindDirective adjacent (s :: done) = behindDirective s.isDirective done := by
  cases done with
  | nil => rfl
  | cons d done => simp [behindDirective, List.getLast?_cons]

/-- The text is cut into segments as it is read from the left, up to `rest`. -/
def IsCut (previous : Option Char) (adjacent : Bool) (segments : List Segment)
    (rest : List Char) : Prop :=
  ∀ done next after, segments = done ++ next :: after →
    ∃ c cs, c :: cs = next.source ++ (after.flatMap source ++ rest) ∧
      first (lastRead previous done) (behindDirective adjacent done) c cs = .ok next

theorem IsCut.cons {previous : Option Char} {adjacent : Bool} {s : Segment}
    {segments : List Segment} {c : Char} {cs rest : List Char}
    (htext : c :: cs = s.source ++ (segments.flatMap source ++ rest))
    (hs : first previous adjacent c cs = .ok s)
    (h : IsCut s.source.getLast? s.isDirective segments rest) :
    IsCut previous adjacent (s :: segments) rest := by
  intro done next after hsegments
  cases done with
  | nil =>
    cases hsegments
    exact ⟨c, cs, htext, hs⟩
  | cons d done =>
    obtain ⟨rfl, hlater⟩ := List.cons.inj hsegments
    rw [lastRead_cons, behindDirective_cons]
    exact h done next after hlater

/-- A scan cuts its text up to the end, or up to a place where nothing can be read. -/
theorem scan_cut (previous : Option Char) (adjacent : Bool) (p : Position) (text : List Char) :
    ∃ segments rest, text = segments.flatMap source ++ rest ∧
      IsCut previous adjacent segments rest ∧
      ((rest = [] ∧ scan previous adjacent p text = .ok (placed p segments)) ∨
        ∃ f c cs, rest = c :: cs ∧
          first (lastRead previous segments) (behindDirective adjacent segments) c cs = .error f ∧
          scan previous adjacent p text =
            .error (f, (p.after (segments.flatMap source)).after f.passed)) := by
  fun_induction scan previous adjacent p text with
  | case1 previous adjacent p => exact ⟨[], [], rfl, by simp [IsCut], .inl ⟨rfl, rfl⟩⟩
  | case2 previous adjacent p c cs f hf =>
    exact ⟨[], c :: cs, rfl, by simp [IsCut], .inr ⟨f, c, cs, rfl, hf, rfl⟩⟩
  | case3 previous adjacent p c cs s hs _ rest =>
    rename_i ih
    obtain ⟨after, htext, -⟩ := first_reads hs
    have hrest : rest = scan s.source.getLast? s.isDirective (p.after s.source) after :=
      congrArg _ (drop_source htext)
    rw [drop_source htext] at ih
    obtain ⟨segments, rest', rfl, hcut, hends⟩ := ih
    refine ⟨s :: segments, rest', ?_, hcut.cons htext hs, ?_⟩
    · rw [htext, List.flatMap_cons, List.append_assoc]
    · rw [lastRead_cons, behindDirective_cons]
      rcases hends with ⟨rfl, hread⟩ | ⟨f, c', cs', rfl, hf, hread⟩
      · refine .inl ⟨rfl, ?_⟩
        rw [hrest, hread]
        rfl
      · refine .inr ⟨f, c', cs', rfl, hf, ?_⟩
        rw [hrest, hread, List.flatMap_cons, Position.after_append]
        rfl

/-- An `@` behind these segments is to start the directive `k` when `word` stands behind it, in
front of `rest`. -/
def StartsBehind (done : List Segment) (word : List Char) (k : Keyword) (rest : List Char) : Prop :=
  Starts (done.flatMap source).getLast? (∃ d ∈ done.getLast?, d.isDirective) word k rest

theorem startsBehind_iff {done : List Segment} {word rest : List Char} {k : Keyword} :
    StartsBehind done word k rest ↔
      Starts (lastRead none done) (behindDirective false done) word k rest := by
  have hprevious : lastRead none done = (done.flatMap source).getLast? := Option.or_none
  have hadjacent : (behindDirective false done = true) = ∃ d ∈ done.getLast?, d.isDirective := by
    cases h : done.getLast? <;> simp [behindDirective, h]
  rw [StartsBehind, hprevious, hadjacent]

section

variable {segments done after : List Segment} {next : Segment} {cs rest : List Char}

theorem IsCut.isWritten (h : IsCut none false segments rest)
    (hsegments : segments = done ++ next :: after) :
    next.IsWritten (after.flatMap source ++ rest) := by
  obtain ⟨c, cs, htext, hfirst⟩ := h done next after hsegments
  obtain ⟨behind, hcut, hwritten⟩ := first_reads hfirst
  rwa [← List.append_cancel_left (hcut.symm.trans htext)]

theorem IsCut.at_sign (h : IsCut none false segments rest)
    (hsegments : segments = done ++ next :: after)
    (hat : '@' :: cs = next.source ++ (after.flatMap source ++ rest)) :
    (∀ k, next.keyword? = some k ↔
      ∃ word rest, cs = word ++ rest ∧ StartsBehind done word k rest) ∧
      (next.keyword? = none → next = literal '@') := by
  obtain ⟨c, cs', htext, hfirst⟩ := h done next after hsegments
  obtain ⟨rfl, rfl⟩ := List.cons.inj (hat.trans htext.symm)
  simp only [startsBehind_iff]
  exact first_at_ok hfirst

end

/-- A literal character is told, unchanged, by a data token, with the literal characters around
it up to the next segments of another kind. -/
theorem Spelled.literal_in_data {before : List Char} {segments : List Segment}
    {tokens : List Token} (h : Spelled before segments tokens) {done after : List Segment}
    {c : Char} (hsegments : segments = done ++ literal c :: after) :
    ∃ outer left right beyond, done = outer ++ left ∧ after = right ++ beyond ∧
      (∀ s ∈ left ++ right, s.isText) ∧
      ⟨.data (String.ofList (left.flatMap literalText ++ c :: right.flatMap literalText)),
        .counted (before ++ outer.flatMap source)⟩ ∈ tokens := by
  induction h generalizing done with
  | finish before => simp at hsegments
  | @comment before body rest tokens h ih =>
    cases done with
    | nil => cases hsegments
    | cons d done =>
      obtain ⟨rfl, hrest⟩ := List.cons.inj hsegments
      obtain ⟨outer, left, right, beyond, rfl, hafter, htext, hmem⟩ := ih hrest
      refine ⟨Segment.comment body :: outer, left, right, beyond, rfl, hafter, htext, ?_⟩
      rwa [List.flatMap_cons, ← List.append_assoc]
  | @data before c' run rest tokens hrun hrest h ih =>
    have hsplit : literal c' :: run ++ rest = done ++ literal c :: after := hsegments
    rcases List.append_eq_append_iff.mp hsplit with
      ⟨between, hdone, hbeyond⟩ | ⟨between, hread, hbeyond⟩
    · obtain ⟨outer, left, right, beyond, rfl, hafter, htext, hmem⟩ := ih hbeyond
      refine ⟨literal c' :: run ++ outer, left, right, beyond, by simp [hdone], hafter, htext, ?_⟩
      rw [List.flatMap_append, ← List.append_assoc]
      exact List.mem_cons_of_mem _ hmem
    · cases between with
      | nil =>
        rw [List.nil_append] at hbeyond
        rw [← hbeyond] at hrest
        cases hrest _ rfl
      | cons d right =>
        obtain ⟨rfl, rfl⟩ := List.cons.inj hbeyond
        have htext : ∀ s ∈ literal c' :: run, s.isText := List.forall_mem_cons.mpr ⟨rfl, hrun⟩
        refine ⟨[], done, right, rest, rfl, rfl, fun s hs => htext s ?_, ?_⟩
        · rw [hread]
          exact (List.sublist_cons_self _ right).append_left done |>.subset hs
        · rw [hread]
          simp [literalText]
  | @mark before s kind rest tokens hkind h ih =>
    cases done with
    | nil =>
      cases hsegments
      cases hkind
    | cons d done =>
      obtain ⟨rfl, hrest⟩ := List.cons.inj hsegments
      obtain ⟨outer, left, right, beyond, rfl, hafter, htext, hmem⟩ := ih hrest
      refine ⟨s :: outer, left, right, beyond, rfl, hafter, htext, ?_⟩
      rw [List.flatMap_cons, ← List.append_assoc]
      exact List.mem_cons_of_mem _ hmem

end Segment

theorem Source.tokens_ok {s : Source} {segments : List (Position × Segment)}
    (h : Segment.scan none false .origin s.text.toList = .ok segments) :
    s.tokens = .ok (s.tokensOf segments) := by
  rw [Source.tokens, Source.segments, h]

theorem Source.tokens_error {s : Source} {f : Segment.Fault} {before : List Char}
    (h : Segment.scan none false .origin s.text.toList =
      .error (f, (Position.origin.after before).after f.passed)) :
    s.tokens = .error (s.errorAt f.message f.code (.counted (before ++ f.passed))) := by
  rw [Position.origin_after, ← Position.counted_append] at h
  rw [Source.tokens, Source.segments, h]

/-- Where the directives of a source start. The text is cut, from the left, into the segments that
are written there, up to its end or to a place that is at fault. An `@` behind such segments lies
outside of all of them: the next one is the directive that is to start there, or a literal `@`,
which a data token tells. If no argument list is opened where one has to be, tokenizing fails. -/
theorem directive_starts_iff (s : Source) :
    ∃ (segments : List Segment) (rest : List Char),
      s.text.toList = segments.flatMap Segment.source ++ rest ∧
      (∀ done next after, segments = done ++ next :: after →
        next.IsWritten (after.flatMap Segment.source ++ rest) ∧
        ∀ cs, '@' :: cs = next.source ++ (after.flatMap Segment.source ++ rest) →
          (∀ k, next.keyword? = some k ↔
            ∃ word more, cs = word ++ more ∧ Segment.StartsBehind done word k more) ∧
          (next.keyword? = none → next = .literal '@')) ∧
      (∀ done word k more, s.text.toList = done.flatMap Segment.source ++ '@' :: (word ++ more) →
        done <+: segments → Segment.StartsBehind done word k more → k.takesArguments →
        ¬ Segment.OpensArguments more →
        s.tokens = .error (s.errorAt (Segment.Fault.missingArguments k).message .missingArguments
          (.counted (done.flatMap Segment.source)))) ∧
      ((rest = [] ∧ ∃ tokens, s.tokens = .ok tokens ∧ Segment.Spelled [] segments tokens ∧
          ∀ done after, segments = done ++ .literal '@' :: after →
            ∃ left right p, ⟨.data (String.ofList (left ++ '@' :: right)), p⟩ ∈ tokens) ∨
        (∃ e, s.tokens = .error e) ∧ rest ≠ [] ∧ ∀ cs, rest = '@' :: cs →
          ∃ word k more, cs = word ++ more ∧ Segment.StartsBehind segments word k more ∧
            k.takesArguments) := by
  obtain ⟨segments, rest, htext, hcut, hends⟩ :=
    Segment.scan_cut none false .origin s.text.toList
  refine ⟨segments, rest, htext, fun done next after hsegments => ⟨hcut.isWritten hsegments,
    fun cs hat => hcut.at_sign hsegments hat⟩, ?_, ?_⟩
  · rintro done word k more hat ⟨tail, rfl⟩ hstarts hk hnone
    have hmissing := Segment.first_at_missing (Segment.startsBehind_iff.mp hstarts) hk hnone
    rw [htext, List.flatMap_append, List.append_assoc] at hat
    have hbehind := List.append_cancel_left hat
    cases tail with
    | nil =>
      rw [List.append_nil] at hends
      rcases hends with ⟨rfl, -⟩ | ⟨f, c, cs, rfl, hf, hread⟩
      · cases hbehind
      · obtain ⟨rfl, rfl⟩ := List.cons.inj hbehind
        cases hf.symm.trans hmissing
        have hpassed : (Segment.Fault.missingArguments k).passed = [] := rfl
        have herror := Source.tokens_error hread
        rwa [hpassed, List.append_nil] at herror
    | cons next after =>
      obtain ⟨c, cs, hnext, hfirst⟩ := hcut done next after rfl
      rw [List.flatMap_cons, List.append_assoc, ← hnext] at hbehind
      obtain ⟨rfl, rfl⟩ := List.cons.inj hbehind
      cases hfirst.symm.trans hmissing
  · rcases hends with ⟨rfl, hread⟩ | ⟨f, c, cs, rfl, hf, hread⟩
    · have hspelled := Source.tokensOf_spelled (htext.trans (List.append_nil _)).symm
      refine .inl ⟨rfl, _, Source.tokens_ok hread, hspelled, fun done after hsegments => ?_⟩
      obtain ⟨outer, left, right, beyond, -, -, -, hmem⟩ := hspelled.literal_in_data hsegments
      exact ⟨_, _, _, hmem⟩
    · refine .inr ⟨⟨_, Source.tokens_error hread⟩, List.cons_ne_nil c cs, ?_⟩
      rintro _ ⟨rfl⟩
      obtain ⟨word, k, more, rfl, hstarts, hk, -⟩ := Segment.first_at_error hf
      exact ⟨word, k, more, rfl, Segment.startsBehind_iff.mpr hstarts, hk⟩

end Stencil
