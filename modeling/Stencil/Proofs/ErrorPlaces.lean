import Stencil.Proofs.DirectiveStarts
import Stencil.Proofs.Rejections

/-!
# Where syntax errors point

An error of a source points at the first character of the construct at fault: at the marker or the
parenthesis that is never closed, at the directive that lacks its arguments, at the marker or the
directive that is refused behind those in front of it, at the opener of the block that is still
open at the end, or at a section that has no layout. So the place is that of a character, and
never the end of the source or one of its literal texts.
-/

namespace Stencil

open Text (Position)

/-- The characters a token was written with at its place. -/
inductive Token.Shows (t : Token) : List Char → Prop
  | output {text : String} (ht : t.kind = .output text) : Shows t Delimiter.outputOpening
  | rawOutput {text : String} (ht : t.kind = .rawOutput text) : Shows t Delimiter.rawOpening
  | directive {k : Keyword} {arguments : Option String} {word : List Char}
      (ht : t.kind = .directive k arguments) (hword : Segment.keywordOf word = some k) :
      Shows t ('@' :: word)

theorem Token.Shows.head {t : Token} {mark : List Char} (h : t.Shows mark) :
    ∃ c ∈ ['\x7b', '@'], mark.head? = some c := by
  cases h with
  | output ht => exact ⟨'\x7b', by decide, rfl⟩
  | rawOutput ht => exact ⟨'\x7b', by decide, rfl⟩
  | directive ht hword => exact ⟨'@', by decide, rfl⟩

namespace Segment

theorem AllWritten.of_split {done after : List Segment} {s : Segment}
    (h : AllWritten (done ++ s :: after)) : s.IsWritten (after.flatMap source) := by
  induction done with
  | nil => exact h.1
  | cons d done ih => exact ih h.2

/-- A token that is no literal text and no end was made from one segment. -/
theorem Spelled.segment_of {before : List Char} {segments : List Segment} {tokens : List Token}
    (h : Spelled before segments tokens) {t : Token} (ht : t ∈ tokens) (hdata : t.isData = false)
    (hfinish : t.kind ≠ .finish) :
    ∃ done s after, segments = done ++ s :: after ∧ s.tokenKind? = some t.kind ∧
      t.position = .counted (before ++ done.flatMap source) := by
  induction h with
  | finish before =>
    cases List.mem_singleton.mp ht
    exact absurd rfl hfinish
  | @comment before body rest tokens h ih =>
    obtain ⟨done, s, after, rfl, hkind, hposition⟩ := ih ht
    refine ⟨Segment.comment body :: done, s, after, rfl, hkind, ?_⟩
    rw [hposition, List.flatMap_cons, List.append_assoc]
  | @data before c run rest tokens hrun hrest h ih =>
    rcases List.mem_cons.mp ht with rfl | ht
    · cases hdata
    · obtain ⟨done, s, after, rfl, hkind, hposition⟩ := ih ht
      refine ⟨literal c :: run ++ done, s, after, ?_, hkind, ?_⟩
      · rw [List.append_assoc]
      · rw [hposition, List.flatMap_append, List.append_assoc]
  | @mark before s kind rest tokens hkind h ih =>
    rcases List.mem_cons.mp ht with rfl | ht
    · exact ⟨[], s, rest, rfl, hkind, by rw [List.flatMap_nil, List.append_nil]⟩
    · obtain ⟨done, s', after, rfl, hkind', hposition⟩ := ih ht
      refine ⟨s :: done, s', after, rfl, hkind', ?_⟩
      rw [hposition, List.flatMap_cons, List.append_assoc]

theorem shows_of_tokenKind? {t : Token} {s : Segment} {rest : List Char}
    (h : s.tokenKind? = some t.kind) (hwritten : s.IsWritten rest) :
    ∃ mark, t.Shows mark ∧ mark <+: s.source := by
  cases s with
  | literal c => cases h
  | comment body => cases h
  | output body =>
    have hkind : t.kind = .output (String.ofList body) := (Option.some.inj h).symm
    refine ⟨_, .output hkind, ?_⟩
    rw [source, List.append_assoc]
    exact List.prefix_append _ _
  | rawOutput body =>
    have hkind : t.kind = .rawOutput (String.ofList body) := (Option.some.inj h).symm
    refine ⟨_, .rawOutput hkind, ?_⟩
    rw [source, List.append_assoc]
    exact List.prefix_append _ _
  | bare word k =>
    have hkind : t.kind = .directive k none := (Option.some.inj h).symm
    exact ⟨_, .directive hkind hwritten.1, List.prefix_refl _⟩
  | withArguments word k gap body =>
    have hkind : t.kind = .directive k (some (String.ofList body)) := (Option.some.inj h).symm
    refine ⟨_, .directive hkind hwritten.1, ?_⟩
    rw [source, List.append_assoc, List.append_assoc]
    exact List.prefix_append _ _

/-- No construct begins this text, for the fault that is told of it; `mark` stands at its place. -/
inductive Faulty : List Char → Fault → List Char → Prop
  | comment {body : List Char} (h : Text.indexOf? Delimiter.commentClosing body = none) :
      Faulty (Delimiter.commentOpening ++ body) .unclosedComment Delimiter.commentOpening
  | output {body : List Char} (h : Token.Closing.offset? Delimiter.outputClosing body = none) :
      Faulty (Delimiter.outputOpening ++ body) (.unclosedOutput false) Delimiter.outputOpening
  | rawOutput {body : List Char} (h : Token.Closing.offset? Delimiter.rawClosing body = none) :
      Faulty (Delimiter.rawOpening ++ body) (.unclosedOutput true) Delimiter.rawOpening
  | missing {word more : List Char} {k : Keyword} (hword : keywordOf word = some k)
      (hk : k.takesArguments) (h : ¬ OpensArguments more) :
      Faulty ('@' :: word ++ more) (.missingArguments k) ('@' :: word)
  | arguments {word gap body : List Char} {k : Keyword} (hword : keywordOf word = some k)
      (hk : k.takesArguments) (hgap : ∀ c ∈ gap, c = ' ' ∨ c = '\t')
      (h : Token.Closing.offset? [')'] body = none) :
      Faulty ('@' :: word ++ gap ++ '(' :: body) (.unclosedArguments k ('@' :: word ++ gap)) ['(']

section

variable {rest mark : List Char} {f : Fault}

theorem Faulty.passed (h : Faulty rest f mark) : f.passed ++ mark <+: rest := by
  cases h with
  | comment h => exact List.prefix_append _ _
  | output h => exact List.prefix_append _ _
  | rawOutput h => exact List.prefix_append _ _
  | missing hword hk h => exact List.prefix_append _ _
  | arguments hword hk hgap h =>
    exact (List.prefix_append_right_inj _).mpr ((List.prefix_cons_inj _).mpr List.nil_prefix)

theorem Faulty.head (h : Faulty rest f mark) :
    ∃ c ∈ ['\x7b', '@', '('], mark.head? = some c := by
  cases h with
  | comment h => exact ⟨'\x7b', by decide, rfl⟩
  | output h => exact ⟨'\x7b', by decide, rfl⟩
  | rawOutput h => exact ⟨'\x7b', by decide, rfl⟩
  | missing hword hk h => exact ⟨'@', by decide, rfl⟩
  | arguments hword hk hgap h => exact ⟨'(', by decide, rfl⟩

theorem directive_is_faulty {word : List Char} {k : Keyword} (hword : keywordOf word = some k)
    (h : directive word k rest = .error f) : ∃ mark, Faulty ('@' :: word ++ rest) f mark := by
  obtain ⟨hk, ⟨hnone, rfl⟩ | -⟩ := directive_error h
  · exact ⟨_, .missing hword hk hnone⟩
  unfold directive at h
  rw [if_pos hk] at h
  dsimp only at h
  generalize hgap : rest.takeWhile (fun c => c = ' ' || c = '\t') = gap at h
  obtain ⟨hblank, hrest⟩ := blanks_of_text hgap
  split at h
  · rename_i body hopens
    rw [hopens] at hrest
    split at h
    · cases h
    · rename_i hclosing
      cases h
      have hfaulty := Faulty.arguments hword hk hblank hclosing
      rw [List.append_assoc, hrest] at hfaulty
      exact ⟨_, hfaulty⟩
  · rename_i hopens
    cases h
    refine ⟨_, .missing hword hk fun hargs => ?_⟩
    obtain ⟨body, hbody⟩ := hargs.drop_blanks
    rw [hgap] at hbody
    exact hopens body hbody

theorem first_is_faulty {previous : Option Char} {adjacent : Bool} {c : Char} {cs : List Char}
    (h : first previous adjacent c cs = .error f) : ∃ mark, Faulty (c :: cs) f mark := by
  have hcs := List.prefix_iff_eq_append.mp (leadingWord_is_beginning cs)
  unfold first at h
  split at h
  · rename_i body hopening
    rw [Text.eq_append_of_dropBeginning? hopening]
    split at h
    · cases h
    · rename_i hclosing
      cases h
      exact ⟨_, .comment hclosing⟩
  split at h
  · rename_i body hopening
    rw [Text.eq_append_of_dropBeginning? hopening]
    split at h
    · cases h
    · rename_i hclosing
      cases h
      exact ⟨_, .rawOutput hclosing⟩
  split at h
  · rename_i body hopening
    rw [Text.eq_append_of_dropBeginning? hopening]
    split at h
    · cases h
    · rename_i hclosing
      cases h
      exact ⟨_, .output hclosing⟩
  split at h
  · rename_i hat
    dsimp only at h
    split at h
    · rename_i k hword
      split at h
      · have hfaulty := directive_is_faulty hword h
        rwa [List.cons_append, hcs, ← hat] at hfaulty
      · cases h
    · cases h
  · cases h

end

end Segment

namespace Source

/-- The error is told of a construct that stands behind `before` and is written `mark`. -/
inductive PointsAt (s : Source) (before mark : List Char) : SyntaxError → Prop
  /-- The text is cut from the left up to a construct that is not complete. -/
  | incomplete {segments : List Segment} {rest : List Char} {f : Segment.Fault}
      (htext : s.text.toList = segments.flatMap Segment.source ++ rest)
      (hcut : Segment.IsCut none false segments rest) (hf : Segment.Faulty rest f mark)
      (hbefore : before = segments.flatMap Segment.source ++ f.passed) :
      PointsAt s before mark (s.errorAt f.message f.code (.counted before))
  /-- An interpolation or a directive is refused behind the tokens in front of it. -/
  | refused {tokens us vs : List Token} {t : Token} {r : Tree.Reading} {p : Problem}
      (htokens : s.tokens = .ok tokens) (hsplit : tokens = us ++ t :: vs)
      (hread : us.foldlM Tree.Reading.step .empty = .ok r)
      (hrefused : r.step t = .error (.problem p t.position)) (hshows : t.Shows mark)
      (hposition : t.position = .counted before) :
      PointsAt s before mark (s.errorAt p.message p.code (.counted before))
  /-- All tokens are read, and the innermost block that is open then was opened by `t`. -/
  | unclosed {content : List Token} {stop : Position} {t : Token} {r : Tree.Reading}
      {f : Tree.Frame} {fs : List Tree.Frame} {arguments : Option String}
      (htokens : s.tokens = .ok (content ++ [⟨.finish, stop⟩])) (ht : t ∈ content)
      (hread : content.foldlM Tree.Reading.step .empty = .ok r) (hopen : r.frames = f :: fs)
      (hopener : t.kind = .directive (.opening f.opening.block) arguments)
      (hframe : f.position = t.position) (hshows : t.Shows mark)
      (hposition : t.position = .counted before) :
      PointsAt s before mark
        (s.errorAt (Problem.unclosed f.openBlock).message .unclosedBlock (.counted before))
  /-- All tokens are read, none of them names a layout, and `t` begins a section. -/
  | section {tokens : List Token} {t : Token} {r : Tree.Reading} {own : Section}
      {arguments : Option String} (htokens : s.tokens = .ok tokens) (ht : t ∈ tokens)
      (hread : tokens.foldlM Tree.Reading.step .empty = .ok r) (hlayout : r.layout = none)
      (hsection : .section own ∈ r.items)
      (hopener : t.kind = .directive (.opening .sectionBlock) arguments)
      (hown : own.position = t.position) (hshows : t.Shows mark)
      (hposition : t.position = .counted before) :
      PointsAt s before mark
        (s.errorAt (Problem.sectionWithoutLayout own.name).message .invalidSection
          (.counted before))

variable {s : Source} {before mark : List Char} {e : SyntaxError}

/-- Every marker and every directive among the tokens stands at its position in the text. -/
theorem shows_of_mem {tokens : List Token} (htokens : s.tokens = .ok tokens) {t : Token}
    (ht : t ∈ tokens) (hdata : t.isData = false) (hfinish : t.kind ≠ .finish) :
    ∃ before mark, before ++ mark <+: s.text.toList ∧ t.position = .counted before ∧
      t.Shows mark := by
  obtain ⟨segments, hcovers, hwritten, hspelled⟩ := Segment.spelled_of_tokens htokens
  obtain ⟨done, seg, after, rfl, hkind, hposition⟩ := hspelled.segment_of ht hdata hfinish
  obtain ⟨mark, hshows, hmark⟩ := Segment.shows_of_tokenKind? hkind hwritten.of_split
  refine ⟨done.flatMap Segment.source, mark, ?_, hposition, hshows⟩
  rw [← hcovers, List.flatMap_append, List.flatMap_cons]
  exact (List.prefix_append_right_inj _).mpr (hmark.trans (List.prefix_append _ _))

theorem shows_of_directive {tokens : List Token} (htokens : s.tokens = .ok tokens) {t : Token}
    (ht : t ∈ tokens) {k : Keyword} {arguments : Option String}
    (hk : t.kind = .directive k arguments) :
    ∃ before mark, before ++ mark <+: s.text.toList ∧ t.position = .counted before ∧
      t.Shows mark := by
  refine shows_of_mem htokens ht ?_ ?_
  · rw [Token.isData, hk]
  · intro hfinish
    cases hk.symm.trans hfinish

theorem isData_of_refused {r : Tree.Reading} {t : Token} {x : Rejection} (h : r.step t = .error x) :
    t.isData = false := by
  unfold Tree.Reading.step at h
  unfold Token.isData
  split
  · rename_i text hkind
    rw [hkind] at h
    cases h
  · rfl

theorem tokens_split {tokens us vs : List Token} {t : Token} (htokens : s.tokens = .ok tokens)
    (hsplit : tokens = us ++ t :: vs) (ht : t.kind = .finish) :
    ∃ stop, s.tokens = .ok (us ++ [⟨.finish, stop⟩]) := by
  obtain ⟨segments, -, -, hspelled⟩ := Segment.spelled_of_tokens htokens
  obtain ⟨content, hcontent, hnone⟩ := hspelled.ends_once
  rw [htokens, hcontent]
  rw [hcontent] at hsplit
  rcases List.eq_nil_or_concat vs with rfl | ⟨ws, w, rfl⟩
  · obtain ⟨rfl, -⟩ := List.append_inj' hsplit rfl
    exact ⟨_, rfl⟩
  · rw [List.concat_eq_append, ← List.cons_append, ← List.append_assoc] at hsplit
    obtain ⟨rfl, -⟩ := List.append_inj' hsplit rfl
    exact absurd ht (hnone t (List.mem_append_right _ List.mem_cons_self))

theorem pointsAt_of_tokens (h : s.tokens = .error e) :
    ∃ before mark, before ++ mark <+: s.text.toList ∧ s.PointsAt before mark e := by
  obtain ⟨segments, rest, htext, hcut, ⟨-, hread⟩ | ⟨f, c, cs, rfl, hf, hread⟩⟩ :=
    Segment.scan_cut none false .origin s.text.toList
  · cases h.symm.trans (Source.tokens_ok hread)
  · cases h.symm.trans (Source.tokens_error hread)
    obtain ⟨mark, hfaulty⟩ := Segment.first_is_faulty hf
    refine ⟨_, mark, ?_, .incomplete htext hcut hfaulty rfl⟩
    rw [htext, List.append_assoc]
    exact (List.prefix_append_right_inj _).mpr hfaulty.passed

/-- A problem of the tokens is told of a construct among them. -/
theorem pointsAt_of_ofTokens {tokens : List Token} (htokens : s.tokens = .ok tokens)
    {p : Problem} {q : Position} (h : Tree.ofTokens tokens = .error (.problem p q)) :
    ∃ before mark, before ++ mark <+: s.text.toList ∧
      s.PointsAt before mark (s.errorAt p.message p.code q) := by
  rcases Tree.Reading.bind_error h with h | ⟨r, hread, h⟩
  · obtain ⟨us, t, vs, r, hsplit, hread, hrefused⟩ := Tree.Reading.foldlM_error h
    have ht : t ∈ tokens := hsplit ▸ List.mem_append_right us List.mem_cons_self
    by_cases hfinish : t.kind = .finish
    · obtain ⟨f, fs, hopen, heq⟩ := Tree.Reading.finish_error hfinish hrefused
      cases heq
      obtain ⟨stop, hstop⟩ := tokens_split htokens hsplit hfinish
      obtain ⟨opener, hopener, hposition, arguments, hk⟩ :=
        (Tree.Reading.begins_of_read hread).frames f (hopen ▸ List.mem_cons_self)
      have hmem : opener ∈ tokens := hsplit ▸ List.mem_append_left _ hopener
      obtain ⟨before, mark, hbefore, hcounted, hshows⟩ := shows_of_directive htokens hmem hk
      refine ⟨before, mark, hbefore, ?_⟩
      rw [← hposition, hcounted]
      exact .unclosed hstop hopener hread hopen hk hposition.symm hshows hcounted
    · obtain ⟨before, mark, hbefore, hcounted, hshows⟩ :=
        shows_of_mem htokens ht (isData_of_refused hrefused) hfinish
      have hat := Tree.Reading.step_refuses hrefused
      generalize hx : Rejection.problem p q = x at hat
      cases hat with
      | token p' =>
        cases hx
        refine ⟨before, mark, hbefore, ?_⟩
        rw [hcounted]
        exact .refused htokens hsplit hread hrefused hshows hcounted
      | unclosed hend hr => exact absurd hend hfinish
      | notACall hcall => cases hx
  · obtain ⟨own, hlayout, hown, heq⟩ := Tree.assemble_error h
    cases heq
    have hmem := List.mem_reverse.mp hown
    obtain ⟨t, ht, hposition, arguments, hk⟩ :=
      (Tree.Reading.begins_of_read hread).sections own hmem
    obtain ⟨before, mark, hbefore, hcounted, hshows⟩ := shows_of_directive htokens ht hk
    refine ⟨before, mark, hbefore, ?_⟩
    rw [← hposition, hcounted]
    exact .section htokens ht hread hlayout hmem hk hposition.symm hshows hcounted

theorem pointsAt_of_malformed (h : s.tree = .error (.template (.malformed e))) :
    ∃ before mark, before ++ mark <+: s.text.toList ∧ s.PointsAt before mark e := by
  unfold tree at h
  cases htokens : s.tokens with
  | error e' =>
    rw [htokens] at h
    cases h
    exact pointsAt_of_tokens htokens
  | ok tokens =>
    rw [htokens] at h
    dsimp only at h
    cases htree : Tree.ofTokens tokens with
    | ok read =>
      rw [htree] at h
      cases h
    | error x =>
      rw [htree] at h
      cases x with
      | problem p q =>
        cases h
        exact pointsAt_of_ofTokens htokens htree
      | notACall => cases h

theorem PointsAt.head (h : s.PointsAt before mark e) :
    ∃ c ∈ ['{', '@', '('], mark.head? = some c := by
  have hshown {t : Token} (ht : t.Shows mark) : ∃ c ∈ ['{', '@', '('], mark.head? = some c := by
    obtain ⟨c, hc, hmark⟩ := ht.head
    exact ⟨c, List.mem_append_left ['('] hc, hmark⟩
  cases h with
  | incomplete htext hcut hf hbefore => exact hf.head
  | refused htokens hsplit hread hrefused hshows hposition => exact hshown hshows
  | unclosed htokens ht hread hopen hopener hframe hshows hposition => exact hshown hshows
  | «section» htokens ht hread hlayout hsection hopener hown hshows hposition =>
    exact hshown hshows

/-- The line and the column of an error are those of the construct it points at. -/
theorem PointsAt.position (h : s.PointsAt before mark e) :
    e.line = some ((Position.counted before).line : Int) ∧
      e.column = some ((Position.counted before).column : Int) := by
  cases h <;> exact ⟨rfl, rfl⟩

end Source

/-- An error of a source points at a construct of its text: line and column are those of the first
character of the marker, the directive or the parenthesis that the error is told of. -/
theorem errors_point_at_constructs {s : Source} {e : SyntaxError}
    (h : s.tree = .error (.template (.malformed e))) :
    ∃ (before mark : List Char) (c : Char), before ++ mark <+: s.text.toList ∧
      mark.head? = some c ∧ c ∈ ['{', '@', '('] ∧
      e.line = some ((Position.counted before).line : Int) ∧
      e.column = some ((Position.counted before).column : Int) ∧ s.PointsAt before mark e := by
  obtain ⟨before, mark, hbefore, hpoints⟩ := Source.pointsAt_of_malformed h
  obtain ⟨c, hc, hmark⟩ := hpoints.head
  obtain ⟨hline, hcolumn⟩ := hpoints.position
  exact ⟨before, mark, c, hbefore, hmark, hc, hline, hcolumn, hpoints⟩

/-- A loop in a conditional, neither of them closed. -/
def unclosedLoop : Source := ⟨"a
@if(x)
  @For(y in x){{ y }}", some "page", none⟩

def unclosedLoopError : SyntaxError :=
  unclosedLoop.errorAt "Unclosed @for (opened at line 3)
  Hint: Add @endfor" .unclosedBlock ⟨3, 2⟩

theorem unclosed_loop_points_at_opener :
    unclosedLoop.tree = .error (.template (.malformed unclosedLoopError)) ∧
      ∃ (before mark : List Char) (c : Char), before ++ mark <+: unclosedLoop.text.toList ∧
        mark.head? = some c ∧ c ∈ ['{', '@', '('] ∧
        unclosedLoopError.line = some ((Position.counted before).line : Int) ∧
        unclosedLoopError.column = some ((Position.counted before).column : Int) ∧
        unclosedLoop.PointsAt before mark unclosedLoopError := by
  have herror : unclosedLoop.tree = .error (.template (.malformed unclosedLoopError)) := by
    decide +kernel
  exact ⟨herror, errors_point_at_constructs herror⟩

end Stencil
