import Mathlib.Data.List.Chain
import Stencil.Token.List

/-!
# How tokens spell a source

A source that can be cut into tokens is cut into segments that make up its text, one behind the
other. Each segment but comments and literal characters is a token of its own; literal characters
with nothing but comments between them share one. Tokens stand at the position that is counted
for the first character they were read from.
-/

namespace Stencil

namespace Text

section Search

variable {α : Type} [BEq α] [LawfulBEq α]

theorem eq_append_of_dropBeginning? {p s rest : List α} (h : dropBeginning? p s = some rest) :
    s = p ++ rest := by
  induction p generalizing s with
  | nil =>
    cases h
    rfl
  | cons a p ih =>
    cases s with
    | nil => cases h
    | cons c s =>
      unfold dropBeginning? at h
      split at h
      · rename_i hac
        rw [ih h, eq_of_beq hac]
        rfl
      · cases h

/-- What is found at an offset stands behind as many elements. -/
theorem append_of_indexOf? {needle s : List α} {n : Nat} (h : indexOf? needle s = some n) :
    ∃ before after, s = before ++ needle ++ after ∧ before.length = n := by
  induction s generalizing n with
  | nil =>
    unfold indexOf? at h
    split at h
    · rename_i hempty
      cases h
      exact ⟨[], [], by rw [List.isEmpty_iff.mp hempty]; rfl, rfl⟩
    · cases h
  | cons c s ih =>
    unfold indexOf? at h
    split at h
    · rename_i hfound
      cases h
      obtain ⟨after, hafter⟩ := Option.isSome_iff_exists.mp hfound
      exact ⟨[], after, eq_append_of_dropBeginning? hafter, rfl⟩
    · obtain ⟨m, hm, rfl⟩ := Option.map_eq_some_iff.mp h
      obtain ⟨before, after, rfl, rfl⟩ := ih hm
      exact ⟨c :: before, after, rfl, rfl⟩

end Search

namespace Position

/-- The position behind `s`: lines are counted by newlines, columns from the last one on. -/
def counted (s : List Char) : Position :=
  ⟨s.count '\n' + 1, (s.reverse.takeWhile (· ≠ '\n')).length⟩

theorem counted_concat (s : List Char) (c : Char) :
    counted (s ++ [c]) = (counted s).advance c := by
  unfold counted advance
  by_cases hc : c = '\n'
  · simp [hc]
  · simp [hc]

theorem counted_append (s t : List Char) : counted (s ++ t) = (counted s).after t := by
  induction t generalizing s with
  | nil => simp
  | cons c t ih =>
    have hstep := ih (s ++ [c])
    rw [List.append_assoc] at hstep
    rw [after_cons, ← counted_concat]
    exact hstep

theorem origin_after (s : List Char) : origin.after s = counted s :=
  (counted_append [] s).symm

def LiesIn (p : Position) (text : List Char) : Prop :=
  ∃ before, before <+: text ∧ p = counted before

end Position

end Text

namespace Token.Closing

theorem append_of_offsetFrom {closer s : List Char} {mode : Mode} {skip n : Nat}
    (h : offsetFrom closer mode skip s = some n) :
    ∃ before after, s = before ++ closer ++ after ∧ before.length = n := by
  induction s generalizing mode skip n with
  | nil =>
    unfold offsetFrom at h
    cases h
  | cons c s ih =>
    have hlater {mode : Mode} {skip : Nat}
        (h : (offsetFrom closer mode skip s).map (· + 1) = some n) :
        ∃ before after, c :: s = before ++ closer ++ after ∧ before.length = n := by
      obtain ⟨m, hm, rfl⟩ := Option.map_eq_some_iff.mp h
      obtain ⟨before, after, rfl, rfl⟩ := ih hm
      exact ⟨c :: before, after, rfl, rfl⟩
    cases skip with
    | succ skip =>
      unfold offsetFrom at h
      exact hlater h
    | zero =>
      unfold offsetFrom at h
      split at h
      · rename_i hcloses
        cases h
        unfold Mode.closesAt at hcloses
        split at hcloses
        · obtain ⟨after, hafter⟩ := List.isPrefixOf_iff_prefix.mp hcloses
          exact ⟨[], after, hafter.symm, rfl⟩
        · cases hcloses
      · exact hlater h

end Token.Closing

namespace Segment

/-- In front of `rest`, the segment is what has to be read: literal characters begin no marker,
markers and arguments end where they are first closed, directives are known words. -/
def IsWritten (rest : List Char) : Segment → Prop
  | literal c =>
    ∀ opening ∈ [Delimiter.commentOpening, Delimiter.rawOpening, Delimiter.outputOpening],
      Text.dropBeginning? opening (c :: rest) = none
  | comment body =>
    Text.indexOf? Delimiter.commentClosing (body ++ Delimiter.commentClosing ++ rest) =
      some body.length
  | output body =>
    Token.Closing.offset? Delimiter.outputClosing (body ++ Delimiter.outputClosing ++ rest) =
      some body.length
  | rawOutput body =>
    Token.Closing.offset? Delimiter.rawClosing (body ++ Delimiter.rawClosing ++ rest) =
      some body.length
  | bare word k => keywordOf word = some k ∧ k.takesArguments = false
  | withArguments word k gap body =>
    keywordOf word = some k ∧ k.takesArguments ∧ (∀ c ∈ gap, c = ' ' ∨ c = '\t') ∧
      Token.Closing.offset? [')'] (body ++ [')'] ++ rest) = some body.length

theorem leadingWord_is_beginning (cs : List Char) : leadingWord cs <+: cs := by
  cases cs with
  | nil => exact List.nil_prefix
  | cons c cs =>
    simp only [leadingWord]
    split
    · exact (List.prefix_cons_inj c).mpr (List.takeWhile_prefix _)
    · exact List.nil_prefix

/-- A text is the blanks with which it begins and what stands behind them. -/
theorem blanks_of_text {rest gap : List Char}
    (hgap : (rest.takeWhile fun c => c = ' ' || c = '\t') = gap) :
    (∀ c ∈ gap, c = ' ' ∨ c = '\t') ∧ gap ++ rest.drop gap.length = rest := by
  refine ⟨fun c hc => ?_, List.prefix_iff_eq_append.mp (hgap ▸ List.takeWhile_prefix _)⟩
  rw [← hgap] at hc
  simpa using List.all_eq_true.mp List.all_takeWhile c hc

theorem directive_reads {word rest : List Char} {k : Keyword} {s : Segment}
    (hword : keywordOf word = some k) (h : directive word k rest = .ok s) :
    ∃ after, '@' :: word ++ rest = s.source ++ after ∧ s.IsWritten after := by
  unfold directive at h
  by_cases hk : k.takesArguments
  · rw [if_pos hk] at h
    simp only at h
    generalize hgap : rest.takeWhile (fun c => c = ' ' || c = '\t') = gap at h
    obtain ⟨hblank, hrest⟩ := blanks_of_text hgap
    split at h
    · rename_i body hparen
      rw [hparen] at hrest
      split at h
      · rename_i n hclosing
        cases h
        obtain ⟨given, after, rfl, rfl⟩ := Token.Closing.append_of_offsetFrom hclosing
        rw [List.append_assoc, List.take_left, ← hrest]
        exact ⟨after, by simp [source], hword, hk, hblank, hclosing⟩
      · cases h
    · cases h
  · rw [if_neg hk] at h
    cases h
    exact ⟨rest, rfl, hword, by simpa using hk⟩

theorem literal_reads {c : Char} {cs : List Char}
    (hcomment : Text.dropBeginning? Delimiter.commentOpening (c :: cs) = none)
    (hraw : Text.dropBeginning? Delimiter.rawOpening (c :: cs) = none)
    (houtput : Text.dropBeginning? Delimiter.outputOpening (c :: cs) = none) :
    ∃ after, c :: cs = source (literal c) ++ after ∧ (literal c).IsWritten after := by
  have hnone : ∀ opening ∈ [Delimiter.commentOpening, Delimiter.rawOpening,
      Delimiter.outputOpening], Text.dropBeginning? opening (c :: cs) = none := by
    simp [hcomment, hraw, houtput]
  exact ⟨cs, rfl, hnone⟩

/-- The segment at the beginning of a text is what the text begins with. -/
theorem first_reads {previous : Option Char} {adjacent : Bool} {c : Char} {cs : List Char}
    {s : Segment} (h : first previous adjacent c cs = .ok s) :
    ∃ after, c :: cs = s.source ++ after ∧ s.IsWritten after := by
  unfold first at h
  split at h
  · rename_i text hopening
    rw [Text.eq_append_of_dropBeginning? hopening]
    split at h
    · rename_i n hclosing
      cases h
      obtain ⟨body, after, rfl, rfl⟩ := Text.append_of_indexOf? hclosing
      rw [List.append_assoc, List.take_left, ← List.append_assoc]
      exact ⟨after, by simp only [source, List.append_assoc], hclosing⟩
    · cases h
  · rename_i hcomment
    split at h
    · rename_i text hopening
      rw [Text.eq_append_of_dropBeginning? hopening]
      split at h
      · rename_i n hclosing
        cases h
        obtain ⟨body, after, rfl, rfl⟩ := Token.Closing.append_of_offsetFrom hclosing
        rw [List.append_assoc, List.take_left, ← List.append_assoc]
        exact ⟨after, by simp only [source, List.append_assoc], hclosing⟩
      · cases h
    · rename_i hraw
      split at h
      · rename_i text hopening
        rw [Text.eq_append_of_dropBeginning? hopening]
        split at h
        · rename_i n hclosing
          cases h
          obtain ⟨body, after, rfl, rfl⟩ := Token.Closing.append_of_offsetFrom hclosing
          rw [List.append_assoc, List.take_left, ← List.append_assoc]
          exact ⟨after, by simp only [source, List.append_assoc], hclosing⟩
        · cases h
      · rename_i houtput
        have hliteral := literal_reads (Option.eq_none_iff_forall_ne_some.mpr hcomment)
          (Option.eq_none_iff_forall_ne_some.mpr hraw)
          (Option.eq_none_iff_forall_ne_some.mpr houtput)
        split at h
        · rename_i hat
          simp only at h
          split at h
          · rename_i k hword
            split at h
            · have hcs := List.prefix_iff_eq_append.mp (leadingWord_is_beginning cs)
              have hreads := directive_reads hword h
              rwa [List.cons_append, hcs, ← hat] at hreads
            · cases h
              exact hliteral
          · cases h
            exact hliteral
        · cases h
          exact hliteral

theorem drop_source {s : Segment} {c : Char} {cs after : List Char}
    (h : c :: cs = s.source ++ after) : cs.drop (s.source.length - 1) = after := by
  have hdrop : (c :: cs).drop s.source.length = after := by rw [h, List.drop_left]
  rwa [← Nat.sub_add_cancel s.source_length_pos, List.drop_succ_cons] at hdrop

/-- Segments one behind the other, the first of them at `p`. -/
def placed (p : Text.Position) : List Segment → List (Text.Position × Segment)
  | [] => []
  | s :: rest => (p, s) :: placed (p.after s.source) rest

/-- Each segment is written in front of those that follow it. -/
def AllWritten : List Segment → Prop
  | [] => True
  | s :: rest => s.IsWritten (rest.flatMap source) ∧ AllWritten rest

/-- A scan cuts the text into the segments that are written there. -/
theorem scan_covers {previous : Option Char} {adjacent : Bool} {p : Text.Position}
    {text : List Char} {found : List (Text.Position × Segment)}
    (h : scan previous adjacent p text = .ok found) :
    ∃ segments, found = placed p segments ∧ segments.flatMap source = text ∧
      AllWritten segments := by
  fun_induction scan previous adjacent p text generalizing found with
  | case1 =>
    cases h
    exact ⟨[], rfl, rfl, trivial⟩
  | case2 previous adjacent p c cs f hf => cases h
  | case3 previous adjacent p c cs s hs _ rest =>
    rename_i ih
    cases hrest : rest with
    | error e =>
      rw [hrest] at h
      cases h
    | ok more =>
      rw [hrest] at h
      cases h
      obtain ⟨segments, hplaced, hcovers, hwritten⟩ := ih hrest
      obtain ⟨after, htext, hreads⟩ := first_reads hs
      rw [drop_source htext] at hcovers
      refine ⟨s :: segments, by rw [hplaced, placed], ?_, ?_, hwritten⟩
      · rw [List.flatMap_cons, hcovers, htext]
      · rw [hcovers]
        exact hreads

def isText (s : Segment) : Bool := s.tokenKind?.isNone

def literalText : Segment → List Char
  | literal c => [c]
  | _ => []

/-- The tokens of segments that stand behind the text `before`. A run of literal characters,
with comments between and behind them, makes a token if it goes on up to the next segment of
another kind or to the end. -/
inductive Spelled : List Char → List Segment → List Token → Prop
  | finish (before : List Char) : Spelled before [] [⟨.finish, .counted before⟩]
  | comment {before body : List Char} {rest : List Segment} {tokens : List Token}
      (h : Spelled (before ++ source (comment body)) rest tokens) :
      Spelled before (comment body :: rest) tokens
  | data {before : List Char} (c : Char) {run rest : List Segment} {tokens : List Token}
      (hrun : ∀ s ∈ run, s.isText) (hrest : ∀ s ∈ rest.head?, s.isText = false)
      (h : Spelled (before ++ (literal c :: run).flatMap source) rest tokens) :
      Spelled before (literal c :: run ++ rest)
        (⟨.data (String.ofList ((literal c :: run).flatMap literalText)), .counted before⟩ ::
          tokens)
  | mark {before : List Char} {s : Segment} {kind : TokenKind} {rest : List Segment}
      {tokens : List Token} (hkind : s.tokenKind? = some kind)
      (h : Spelled (before ++ s.source) rest tokens) :
      Spelled before (s :: rest) (⟨kind, .counted before⟩ :: tokens)

/-- Literal text goes on up to the next segment of another kind. -/
theorem tokensAfter_run (stop q : Text.Position) (text : List Char) (segments : List Segment)
    (p : Text.Position) :
    ∃ run rest, segments = run ++ rest ∧ (∀ s ∈ run, s.isText) ∧
      (∀ s ∈ rest.head?, s.isText = false) ∧
      tokensAfter stop (some (q, text)) (placed p segments) =
        ⟨.data (String.ofList (text.reverse ++ run.flatMap literalText)), q⟩ ::
          tokensAfter stop none (placed (p.after (run.flatMap source)) rest) := by
  induction segments generalizing text p with
  | nil => exact ⟨[], [], rfl, nofun, nofun, by simp [placed, tokensAfter, flush]⟩
  | cons s segments ih =>
    cases htext : s.isText with
    | false =>
      refine ⟨[], s :: segments, rfl, nofun, by simpa using htext, ?_⟩
      cases s with
      | literal c => cases htext
      | comment body => cases htext
      | output body => simp [placed, tokensAfter, flush, tokenKind?]
      | rawOutput body => simp [placed, tokensAfter, flush, tokenKind?]
      | bare word k => simp [placed, tokensAfter, flush, tokenKind?]
      | withArguments word k gap body => simp [placed, tokensAfter, flush, tokenKind?]
    | true =>
      obtain ⟨run, rest, hsegments, hrun, hrest, htokens⟩ :=
        ih (s.literalText.reverse ++ text) (p.after s.source)
      refine ⟨s :: run, rest, by rw [hsegments, List.cons_append], ?_, hrest, ?_⟩
      · rw [List.forall_mem_cons]
        exact ⟨htext, hrun⟩
      · have hstep : tokensAfter stop (some (q, text)) (placed p (s :: segments)) =
            tokensAfter stop (some (q, s.literalText.reverse ++ text))
              (placed (p.after s.source) segments) := by
          cases s with
          | literal c => rfl
          | comment body => rfl
          | output body => cases htext
          | rawOutput body => cases htext
          | bare word k => cases htext
          | withArguments word k gap body => cases htext
        rw [hstep, htokens]
        simp [Text.Position.after_append]

theorem placed_counted (before : List Char) (s : Segment) (rest : List Segment) :
    placed (.counted before) (s :: rest) =
      (.counted before, s) :: placed (.counted (before ++ s.source)) rest := by
  rw [placed, Text.Position.counted_append]

theorem tokensAfter_spelled (before : List Char) (segments : List Segment) :
    Spelled before segments (tokensAfter (.counted (before ++ segments.flatMap source)) none
      (placed (.counted before) segments)) := by
  cases segments with
  | nil =>
    rw [List.flatMap_nil, List.append_nil]
    exact .finish before
  | cons s segments =>
    have hlater := tokensAfter_spelled (before ++ s.source) segments
    rw [List.flatMap_cons, ← List.append_assoc, placed_counted]
    cases s with
    | literal c =>
      obtain ⟨run, rest, rfl, hrun, hrest, htokens⟩ := tokensAfter_run
        (.counted (before ++ source (literal c) ++ segments.flatMap source)) (.counted before) [c]
        segments (.counted (before ++ source (literal c)))
      have hread : before ++ source (literal c) ++ run.flatMap source =
          before ++ (literal c :: run).flatMap source := by simp
      have hbehind := tokensAfter_spelled (before ++ (literal c :: run).flatMap source) rest
      rw [← Text.Position.counted_append, hread, List.flatMap_append, ← List.append_assoc,
        hread] at htokens
      rw [List.flatMap_append, ← List.append_assoc, hread]
      simp only [tokensAfter]
      rw [htokens]
      exact .data c hrun hrest hbehind
    | comment body => exact .comment hlater
    | output body => exact .mark rfl hlater
    | rawOutput body => exact .mark rfl hlater
    | bare word k => exact .mark rfl hlater
    | withArguments word k gap body => exact .mark rfl hlater
termination_by segments.length
decreasing_by
  · simp
  · subst_vars
    simp only [List.length_cons, List.length_append]
    omega

namespace Spelled

variable {before : List Char} {segments : List Segment} {tokens : List Token}

/-- Every token but the one that marks the end stands at a character. -/
theorem position_denotes (h : Spelled before segments tokens) : ∀ t ∈ tokens, t.kind ≠ .finish →
    ∃ done c more, before ++ segments.flatMap source = done ++ c :: more ∧
      t.position = .counted done := by
  induction h with
  | finish before => exact List.forall_mem_singleton.mpr (absurd rfl)
  | comment h ih => simpa using ih
  | @data before c run rest tokens hrun hrest h ih =>
    rw [List.append_assoc, ← List.flatMap_append] at ih
    exact List.forall_mem_cons.mpr ⟨fun _ => ⟨before, c, _, rfl, rfl⟩, ih⟩
  | @mark before s kind rest tokens hkind h ih =>
    rw [List.append_assoc, ← List.flatMap_cons] at ih
    have hsource : s.source ≠ [] := by cases s <;> exact nofun
    obtain ⟨c, more, hc⟩ := List.exists_cons_of_ne_nil hsource
    refine List.forall_mem_cons.mpr ⟨fun _ => ⟨before, c, more ++ rest.flatMap source, ?_, rfl⟩, ih⟩
    rw [List.flatMap_cons, hc, List.cons_append]

/-- Only the last token marks the end, and it stands behind all segments. -/
theorem ends_once (h : Spelled before segments tokens) :
    ∃ content, tokens = content ++ [⟨.finish, .counted (before ++ segments.flatMap source)⟩] ∧
      ∀ t ∈ content, t.kind ≠ .finish := by
  induction h with
  | finish before => exact ⟨[], by simp, nofun⟩
  | comment h ih => simpa using ih
  | @data before c run rest tokens hrun hrest h ih =>
    obtain ⟨content, htokens, hcontent⟩ := ih
    rw [List.append_assoc, ← List.flatMap_append] at htokens
    refine ⟨⟨_, _⟩ :: content, congrArg (List.cons _) htokens, ?_⟩
    rw [List.forall_mem_cons]
    exact ⟨nofun, hcontent⟩
  | @mark before s kind rest tokens hkind h ih =>
    obtain ⟨content, htokens, hcontent⟩ := ih
    rw [List.append_assoc, ← List.flatMap_cons] at htokens
    have hfinish : kind ≠ .finish := by
      rintro rfl
      cases s <;> cases hkind
    refine ⟨⟨_, _⟩ :: content, congrArg (List.cons _) htokens, ?_⟩
    rw [List.forall_mem_cons]
    exact ⟨hfinish, hcontent⟩

end Spelled

end Segment

namespace Token

def isData (t : Token) : Bool :=
  match t.kind with
  | .data _ => true
  | _ => false

theorem isData_iff {t : Token} : t.isData ↔ ∃ text, t.kind = .data text := by
  unfold isData
  constructor
  · intro h
    split at h
    · exact ⟨_, ‹_›⟩
    · cases h
  · rintro ⟨text, hk⟩
    rw [hk]

end Token

namespace Segment.Spelled

variable {before : List Char} {segments : List Segment} {tokens : List Token}

theorem data_nonempty (h : Spelled before segments tokens) : ∀ t ∈ tokens, t.kind ≠ .data "" := by
  induction h with
  | finish before => simp
  | comment h ih => exact ih
  | data c hrun hrest h ih => simpa [literalText] using ih
  | @mark before s kind rest tokens hkind h ih =>
    have hdata : kind ≠ .data "" := by
      rintro rfl
      cases s <;> cases hkind
    simpa using ⟨hdata, ih⟩

/-- Segments that do not begin with text do not begin with a data token. -/
theorem head_not_data (h : Spelled before segments tokens)
    (hs : ∀ s ∈ segments.head?, s.isText = false) : ∀ t ∈ tokens.head?, t.isData = false := by
  cases h with
  | finish before => simp [Token.isData]
  | comment h => cases hs _ rfl
  | data c hrun hrest h => cases hs _ rfl
  | @mark before s kind rest tokens hkind h =>
    cases s <;> cases hkind <;> simp [Token.isData]

theorem data_apart (h : Spelled before segments tokens) :
    tokens.IsChain fun t u => ¬ (t.isData ∧ u.isData) := by
  induction h with
  | finish before => exact .singleton _
  | comment h ih => exact ih
  | data c hrun hrest h ih =>
    rw [List.isChain_cons]
    refine ⟨fun u hu hdata => ?_, ih⟩
    rw [h.head_not_data hrest u hu] at hdata
    cases hdata.2
  | @mark before s kind rest tokens hkind h ih =>
    rw [List.isChain_cons]
    refine ⟨fun u hu hdata => ?_, ih⟩
    cases s <;> cases hkind <;> cases hdata.1

end Segment.Spelled

theorem Source.tokensOf_spelled {s : Source} {segments : List Segment}
    (hcovers : segments.flatMap Segment.source = s.text.toList) :
    Segment.Spelled [] segments (s.tokensOf (Segment.placed .origin segments)) := by
  have hspelled := Segment.tokensAfter_spelled [] segments
  rw [List.nil_append, hcovers] at hspelled
  have htokens : s.tokensOf (Segment.placed .origin segments) =
      Segment.tokensAfter (.counted s.text.toList) none
        (Segment.placed (.counted []) segments) := by
    unfold Source.tokensOf
    rw [Text.Position.origin_after]
    rfl
  exact htokens ▸ hspelled

/-- The text of a source is cut into segments that are written there, and its tokens spell them. -/
theorem Segment.spelled_of_tokens {s : Source} {tokens : List Token} (h : s.tokens = .ok tokens) :
    ∃ segments : List Segment, segments.flatMap Segment.source = s.text.toList ∧
      Segment.AllWritten segments ∧ Segment.Spelled [] segments tokens := by
  unfold Source.tokens at h
  cases hfound : s.segments with
  | error e =>
    rw [hfound] at h
    cases h
  | ok found =>
    rw [hfound] at h
    cases h
    obtain ⟨segments, rfl, hcovers, hwritten⟩ := Segment.scan_covers hfound
    exact ⟨segments, hcovers, hwritten, Source.tokensOf_spelled hcovers⟩

/-- The tokens of a source spell it: its text is cut into segments that are written there one
behind the other; the tokens are these segments without the comments, literal characters taken
together up to the next segment of another kind, each at its counted position. So there is one
end, behind everything, and literal text is neither empty nor cut in two. -/
theorem tokens_spell_source {s : Source} {tokens : List Token} (h : s.tokens = .ok tokens) :
    ∃ segments : List Segment, segments.flatMap Segment.source = s.text.toList ∧
      Segment.AllWritten segments ∧ Segment.Spelled [] segments tokens ∧
      (∃ content, tokens = content ++ [⟨.finish, .counted s.text.toList⟩] ∧
        ∀ t ∈ content, t.kind ≠ .finish) ∧
      (∀ t ∈ tokens, t.kind ≠ .data "") ∧
      tokens.IsChain fun t u => ¬ (t.isData ∧ u.isData) := by
  obtain ⟨segments, hcovers, hwritten, hspelled⟩ := Segment.spelled_of_tokens h
  have hends := hspelled.ends_once
  rw [List.nil_append, hcovers] at hends
  exact ⟨segments, hcovers, hwritten, hspelled, hends, hspelled.data_nonempty,
    hspelled.data_apart⟩

/-- Text around a comment, glued directives and a second line. -/
def noted : Source :=
  ⟨"a\x7b\x7b-- \x7b\x7b --\x7d\x7db\n@If (x[')'])@ENDIF\x7b!!y!!\x7dc", none, none⟩

def notedTokens : List Token :=
  [⟨.data "ab\n", ⟨1, 0⟩⟩, ⟨.directive (.opening .ifBlock) (some "x[')']"), ⟨2, 0⟩⟩,
    ⟨.directive (.closing .ifBlock) none, ⟨2, 12⟩⟩, ⟨.rawOutput "y", ⟨2, 18⟩⟩,
    ⟨.data "c", ⟨2, 25⟩⟩, ⟨.finish, ⟨2, 26⟩⟩]

/-- The two pieces of text around the comment are one token. -/
theorem noted_tokens_spell_source :
    noted.tokens = .ok notedTokens ∧
      ∃ segments : List Segment, segments.flatMap Segment.source = noted.text.toList ∧
        Segment.AllWritten segments ∧ Segment.Spelled [] segments notedTokens ∧
        (∃ content, notedTokens = content ++ [⟨.finish, .counted noted.text.toList⟩] ∧
          ∀ t ∈ content, t.kind ≠ .finish) ∧
        (∀ t ∈ notedTokens, t.kind ≠ .data "") ∧
        notedTokens.IsChain fun t u => ¬ (t.isData ∧ u.isData) := by
  have htokens : noted.tokens = .ok notedTokens := by decide +kernel
  exact ⟨htokens, tokens_spell_source htokens⟩

end Stencil
