import Stencil.Proofs.TargetTexts
import Stencil.Proofs.Words

/-!
# The two forms of loop headers

`target in source` and `source as target` say the same, where the source has no comments and no line
end in its string literals: a header with `in` is read on one line, a source in front of `as` with
its lines.
-/

namespace Stencil.Grammar

open Stencil.Expr (Lexeme LexemeKind lexemes? Snip textOf settleAll)

section

variable {ls : List Lexeme} {n : Nat} {t s : Node} {T S K R : List LexemeKind} {e : Expr}

theorem HeaderPhrases.targets_read (h : HeaderPhrases ls n t s T S) {m : Nat}
    (hm : enough (ls.map (·.kind)) ≤ m) :
    outcome (parseWithin m .targets) ((alone ls).cursor 1) =
      some (t.expr, (alone ls).cursor (1 + T.length)) :=
  h.target.read_between (A := [.name "for"]) h.kinds (fun _ => .of_word (.inr ⟨rfl, rfl⟩)) hm

theorem HeaderPhrases.target_unique (h : HeaderPhrases ls n t s T S)
    (hkinds : ls.map (·.kind) = .name "for" :: (K ++ .name "in" :: R)) (hK : Phrase true K .targets e) :
    T = K ∧ t.expr = e := by
  have hread := h.targets_read (Nat.le_refl _)
  have hread' := hK.read_between (A := [.name "for"]) hkinds (fun _ => .of_word (.inr ⟨rfl, rfl⟩))
    (Nat.le_refl _)
  obtain ⟨rfl, hcursor⟩ := Prod.mk.inj (Option.some.inj (hread.symm.trans hread'))
  have hlength := congrArg List.length hkinds
  have hlength' := congrArg List.length h.kinds
  simp only [List.length_map, List.length_cons, List.length_append] at hlength hlength'
  have hsame : 1 + T.length = 1 + K.length :=
    cursor_alone_inj (by omega) (by omega) hcursor
  have hsplit := h.kinds.symm.trans hkinds
  exact ⟨(List.append_inj (List.cons.inj hsplit).2 (by omega)).1, rfl⟩

/-- No word of statements is among the lexemes of an expression. -/
theorem Phrase.not_foreign {targets : Bool} {g : Goal} (h : Phrase targets K g e) :
    ∀ k ∈ K, ¬ Foreign k := by
  have hkinds : (K.map fun k => (⟨k, 0, 0⟩ : Lexeme)).map (·.kind) = K := by
    rw [List.map_map]
    exact List.map_id K
  obtain ⟨x, hrun, -⟩ := outcome_eq_some.mp (h.read (alone _) _ hkinds .nothing (Nat.le_refl _))
  have hpast := parseWithin_spares _ _ _ _ _ hrun
  have hrest : ((alone (K.map fun k => (⟨k, 0, 0⟩ : Lexeme))).cursor K.length).rest = [] := by
    rw [alone_rest, List.drop_eq_nil_iff, List.length_map]
  rw [alone_cursor] at hpast
  generalize (alone _).cursor K.length = c at hpast hrest
  obtain ⟨rest, stop⟩ := c
  cases hrest
  exact fun k hk => hpast.not_foreign _ (List.mem_map_of_mem hk)

theorem HeaderPhrases.not_as (h : HeaderPhrases ls n t s T S) : .name "as" ∉ ls.map (·.kind) := by
  have has : Foreign (.name "as") := List.mem_cons_self
  rw [h.kinds]
  simp only [List.mem_cons, List.mem_append, List.not_mem_nil, or_false, not_or]
  exact ⟨by simp, fun hT => h.target.not_foreign _ hT has, by simp,
    fun hS => h.source.not_foreign _ hS has, by simp⟩

end

open Text (oneLine spaced)

/-- In parentheses the text has no comments, and no lexeme of it holds a line end. -/
def IsCalm (e : List Char) : Prop :=
  ∃ ss, Expr.Cut (plain ('(' :: e ++ ['\n', ')'])) ss [] ∧ ∀ s ∈ ss, Calm s

section

variable {e : List Char} {be : List Snip}

theorem plain_inParentheses (he : e.getLast? ≠ some '\r') :
    plain ('(' :: e ++ ['\n', ')']) = '(' :: (plain e ++ ['\n', ')']) := by
  rw [List.cons_append, Text.plain_cons (by simp), Text.plain_append fun _ => he]
  rfl

theorem respaced_inParentheses (hend : ∀ c ∈ e.getLast?, ¬ Text.isLineEnd c) :
    List.Forall₂ Respaced ('(' :: (plain e ++ ['\n', ')'])) ('(' :: (oneLine e ++ ['\n', ')'])) := by
  rw [Text.oneLine_eq hend]
  exact .cons (.inl rfl) (List.rel_append (respaced_spaced _) (respaced_refl _))

theorem IsCalm.uncommented (he : IsCalm e) (hend : ∀ c ∈ e.getLast?, ¬ Text.isLineEnd c)
    {a hidden y : List Char} (hsplit : oneLine e = a ++ '#' :: hidden)
    (hcut : Expr.Cut (oneLine e ++ y) be ('#' :: hidden ++ y)) : False := by
  obtain ⟨ss, hss, hcalm⟩ := he
  have hrespaced := respaced_inParentheses hend
  rw [plain_inParentheses fun hc => hend _ hc (by decide)] at hss
  rw [hsplit, List.append_assoc] at hcut hrespaced
  have hcut' : Expr.Cut (a ++ ('#' :: hidden ++ ['\n', ')'])) be ('#' :: hidden ++ ['\n', ')']) :=
    hcut.before_shared ⟨'#', List.mem_cons_self, rfl⟩ fun c hc => .inr (Option.some.inj hc).symm
  obtain ⟨ss₁, ss₂, rest, rfl, -, hrest, hsame, -⟩ :=
    cut_respaced hrespaced hss (.snip (r := []) rfl rfl hcut') hcalm
  cases hsame with
  | @cons c _ rest _ hc _ =>
    obtain rfl : c = '#' := hc.resolve_right fun hblank => absurd hblank.2 (by decide)
    cases hrest with
    | snip => exact (hcalm _ (List.mem_append_right _ List.mem_cons_self)).comment rfl

/-- With its lines a calm text is cut into the same lexemes as on one line. -/
theorem IsCalm.cut (he : IsCalm e) (hend : ∀ c ∈ e.getLast?, ¬ Text.isLineEnd c)
    (hcut : Expr.Cut (oneLine e ++ ['\n', ')']) be ['\n', ')']) :
    ∃ mid, Expr.Cut (plain e ++ ['\n', ')']) mid ['\n', ')'] ∧ kindsOf mid = kindsOf be := by
  obtain ⟨ss, hss, hcalm⟩ := he
  rw [plain_inParentheses fun hc => hend _ hc (by decide)] at hss
  obtain ⟨ss₁, ss₂, rest, rfl, hss₁, -, hsame, hkinds⟩ :=
    cut_respaced (respaced_inParentheses hend) hss (.snip (r := []) rfl rfl hcut) hcalm
  have hlength : rest.length = 2 := hsame.length_eq
  obtain rfl : rest = ['\n', ')'] := by
    have htext := hss₁.text_eq
    rw [← List.cons_append] at htext
    exact (List.append_inj' htext (by rw [hlength]; rfl)).2.symm
  cases hss₁ with
  | @snip _ _ read rest _ p mid hpiece hread hmid =>
    cases (rfl : Expr.piece? '(' (plain e ++ ['\n', ')']) =
      some (.lexeme (.symbol "("), plain e ++ ['\n', ')'])).symm.trans hpiece
    exact ⟨mid, hmid, (List.cons.inj hkinds).2⟩

end

theorem cut_between_as (rest : List Char) : Expr.Cut (" as ".toList ++ rest) (between "as") rest :=
  .snip (r := []) rfl rfl (.snip (r := ['s']) rfl rfl (.snip (r := []) rfl rfl (.done rest)))

theorem oneLine_between {a b : List Char} {c d : Char} (ha : ∀ x ∈ a.getLast?, ¬ Text.isLineEnd x)
    (hb : ∀ x ∈ b.getLast?, ¬ Text.isLineEnd x) (hc : ¬ Text.isLineEnd c) (hd : ¬ Text.isLineEnd d) :
    oneLine (a ++ ([' ', c, d, ' '] ++ b)) = oneLine a ++ ([' ', c, d, ' '] ++ oneLine b) := by
  have hblank : ¬ Text.isLineEnd ' ' := by decide
  have hlast : ∀ x ∈ (' ' :: c :: d :: ' ' :: b).getLast?, ¬ Text.isLineEnd x := by
    cases b with
    | nil =>
      intro x hx
      cases hx
      exact hblank
    | cons x b => simpa only [List.getLast?_cons_cons] using hb
  refine (Text.oneLine_append ha hlast).trans ?_
  rw [Text.oneLine_char hblank, Text.oneLine_char hc, Text.oneLine_char hd, Text.oneLine_char hblank]
  rfl

section

variable {t e : List Char} {bt : List Snip} {h : Expr.LoopHeader}

/-- The lexemes of an accepted header with `in` are those of its two texts. -/
theorem membership_frame (hbt : Expr.Cut (oneLine t) bt []) (hcomment : '#' ∉ oneLine t)
    (ht : ∀ c ∈ t.getLast?, ¬ Text.isLineEnd c) (heEnd : ∀ c ∈ e.getLast?, ¬ Text.isLineEnd c)
    (he : IsCalm e) (hread : Expr.readHeader? (t ++ (" in ".toList ++ e)) = some h) :
    ∃ be ls n tn sn T S, Expr.Cut (oneLine e ++ ":\n    pass".toList) be ":\n    pass".toList ∧
      HeaderPhrases ls n tn sn T S ∧
      ls.map (·.kind) = .name "for" :: (kindsOf bt ++ .name "in" ::
        (kindsOf be ++ [.symbol ":", .newline, .name "pass"])) ∧
      h.target.expr = tn.expr ∧
      ∀ e₀, Expr.read? h.source.text.toList = some e₀ → e₀ = sn.expr := by
  obtain ⟨ls, n, tn, sn, T, S, hls, hphrases, htarget, hstretch⟩ := readHeader?_phrases hread
  have hx : oneLine (t ++ (" in ".toList ++ e)) = oneLine t ++ (" in ".toList ++ oneLine e) :=
    oneLine_between ht heEnd (by decide) (by decide)
  have hline := Text.newline_not_mem_oneLine (t ++ (" in ".toList ++ e))
  have hreturn := Text.return_not_mem_oneLine (t ++ (" in ".toList ++ e))
  rw [hx] at hls hstretch hline hreturn
  rw [hstretch]
  have hkinds := hphrases.kinds
  have hfirst (y : List Char) : Expr.Cut (oneLine t ++ (" in ".toList ++ oneLine e) ++ y)
      (bt ++ between "in") (oneLine e ++ y) := by
    rw [List.append_assoc, List.append_assoc]
    exact target_cut hbt hcomment _
  cases framed_colon hline hreturn hls with
  | @whole l front back before hfor hl hback hbefore hfront =>
    obtain ⟨be, rfl, hbe⟩ := (hfirst _).split_at hbefore (by simp)
    have hfrontKinds : front.map (·.kind) = kindsOf bt ++ .name "in" :: kindsOf be := by
      have htext := List.append_cancel_right hbefore.text_eq
      rw [kinds_of_settleAll (piece_ne_newline hbefore (htext ▸ hline)) hfront, kindsOf_append,
        kindsOf_append, List.append_assoc]
      rfl
    have hall : ls.map (·.kind) = .name "for" :: (kindsOf bt ++ .name "in" ::
        (kindsOf be ++ [.symbol ":", .newline, .name "pass"])) := by
      rw [hfor, List.map_cons, List.map_append, hl, hback, hfrontKinds, List.append_assoc,
        List.cons_append]
    have hlength := congrArg List.length hkinds
    simp only [hfor, List.length_map, List.length_append, List.length_cons] at hlength
    have hback' := congrArg List.length hback
    simp only [List.length_map, List.length_cons, List.length_nil] at hback'
    exact ⟨be, ls, n, tn, sn, T, S, hbe, hphrases, hall, htarget, fun e₀ he₀ =>
      source_of_stretch hphrases hfor hbefore hfront (by omega) hline hreturn he₀⟩
  | @comment l front back before x' hidden hfor hl hback hx' hbefore hfront =>
    obtain ⟨a, ha⟩ : ∃ a, oneLine e = a ++ '#' :: hidden := by
      rw [← List.append_assoc] at hx'
      rcases List.append_eq_append_iff.mp hx' with ⟨a, -, ha⟩ | ⟨_ | ⟨c, a⟩, ha, hhidden⟩
      · exact ⟨a, ha⟩
      · exact ⟨[], hhidden.symm⟩
      · obtain ⟨rfl, -⟩ := List.cons.inj hhidden
        have hmem : '#' ∈ oneLine t ++ " in ".toList :=
          ha ▸ List.mem_append_right x' List.mem_cons_self
        rcases List.mem_append.mp hmem with hmem | hmem
        · exact absurd hmem hcomment
        · exact absurd hmem (by decide)
    obtain ⟨be, rfl, hbe⟩ := (hfirst _).split_at hbefore (by
      rw [ha]
      simp)
    exact (he.uncommented heEnd ha hbe).elim

theorem naming_frame (hbt : Expr.Cut (oneLine t) bt []) (hcomment : '#' ∉ oneLine t)
    (hin : .name "in" ∉ kindsOf bt) (ht : ∀ c ∈ t.getLast?, ¬ Text.isLineEnd c)
    (hread : Expr.readHeader? (t ++ " in _".toList) = some h) :
    Phrase true (kindsOf bt) .targets h.target.expr := by
  obtain ⟨ls, n, tn, sn, T, S, hls, hphrases, htarget, -⟩ := readHeader?_phrases hread
  have hx : oneLine (t ++ " in _".toList) = oneLine t ++ (" in ".toList ++ ['_']) :=
    oneLine_between (b := ['_']) ht (fun c hc => by
      cases hc
      decide) (by decide) (by decide)
  rw [hx, List.append_assoc, List.append_assoc] at hls
  have hrest : Expr.Cut (['_'] ++ ":\n    pass".toList) ([⟨['_'], .lexeme (.name "_")⟩,
      ⟨[':'], .lexeme (.symbol ":")⟩] ++ lineSnips) [] := .snip (r := []) rfl rfl cut_colon
  have hcut := (cut_forSnips _).append ((target_cut hbt hcomment _).append hrest)
  simp only [← List.append_assoc _ _ lineSnips] at hcut
  have htext := hbt.text_eq
  rw [List.append_nil] at htext
  have hpieces := piece_ne_newline hbt (htext ▸ Text.newline_not_mem_oneLine t)
  have hlines : ∀ s ∈ forSnips ++ (bt ++ between "in" ++ [⟨['_'], .lexeme (.name "_")⟩,
      ⟨[':'], .lexeme (.symbol ":")⟩]), s.piece ≠ .newline := by
    simp only [List.forall_mem_append]
    exact ⟨by simp [forSnips], ⟨hpieces, by simp [between]⟩, by simp⟩
  have hreturn := Text.return_not_mem_oneLine t
  have hkinds := kinds_of_frame hcut hlines (by simp [hreturn]) hls
  rw [hphrases.kinds] at hkinds
  have hsplit : T ++ .name "in" :: (S ++ [.symbol ":", .newline, .name "pass"]) =
      kindsOf bt ++ .name "in" :: [.name "_", .symbol ":", .newline, .name "pass"] := by
    simpa [forSnips, between, kindsOf, kindsOfPiece] using hkinds
  obtain ⟨rfl, -⟩ := (List.append_cons_inj_of_notMem hin (by simp)).mp hsplit.symm
  exact htarget ▸ hphrases.target

/-- No header that has `as` behind a calm text is a membership. -/
theorem not_membership (he : IsCalm e) (heEnd : ∀ c ∈ e.getLast?, ¬ Text.isLineEnd c)
    (ht : IsTargetText t) (htEnd : ∀ c ∈ t.getLast?, ¬ Text.isLineEnd c) :
    Expr.readHeader? (e ++ (" as ".toList ++ t)) = none := by
  cases hread : Expr.readHeader? (e ++ (" as ".toList ++ t)) with
  | none => rfl
  | some h =>
    obtain ⟨ls, n, tn, sn, T, S, hls, hphrases, -, -⟩ := readHeader?_phrases hread
    have hx : oneLine (e ++ (" as ".toList ++ t)) = oneLine e ++ (" as ".toList ++ oneLine t) :=
      oneLine_between heEnd htEnd (by decide) (by decide)
    have hreturn := Text.return_not_mem_oneLine (e ++ (" as ".toList ++ t))
    rw [hx] at hls hreturn
    have hreturn' : '\r' ∉ "for ".toList ++ (oneLine e ++ (" as ".toList ++ oneLine t) ++
        ":\n    pass".toList) := by
      simpa using hreturn
    obtain ⟨ss, ls', hcut, hall, hkinds, -⟩ := cut_of_lexemes? hls
    rw [plain_eq hreturn', List.append_assoc, List.append_assoc] at hcut
    obtain ⟨more, rfl, hmore⟩ := (cut_forSnips _).unique hcut
    have hy : Expr.Seam (" as ".toList ++ (oneLine t ++ ":\n    pass".toList)) := by
      refine ⟨⟨' ', rfl, .inl rfl⟩, ?_⟩
      simp only [List.forall_mem_append]
      exact ⟨quotes_of_all (by decide), ht.not_isQuote htEnd, quotes_of_all (by decide)⟩
    have hmem : .name "as" ∈ kindsOf more := by
      cases hmore.seam (Text.newline_not_mem_oneLine e) hy with
      | whole hss hbefore hafter =>
        obtain ⟨rest, rfl, -⟩ := (cut_between_as _).unique hafter
        rw [hss, kindsOf_append, kindsOf_append]
        exact List.mem_append_right _ (List.mem_append_left _ List.mem_cons_self)
      | comment hx hss hs hbefore hafter => exact (he.uncommented heEnd hx hbefore).elim
    refine absurd ?_ hphrases.not_as
    rw [← hkinds]
    exact mem_of_settleAll (kindsOf_append _ _ ▸ List.mem_append_right _ hmem) hall

/-- Where a calm text is split at ` as `, behind a target and `in` its first part is cut as in the
whole text; so the word is a lexeme of the text. -/
theorem IsCalm.as_mem {ss₁ ss₂ : List Snip} {u bl back : List Char} {d : Char} (ht : IsTargetText t)
    (htEnd : ∀ c ∈ t.getLast?, ¬ Text.isLineEnd c)
    (hsplit : ' ' :: e = u ++ (bl ++ 'a' :: 's' :: d :: back)) (hne : bl ≠ [])
    (hbl : ∀ b ∈ bl, Text.isBlank b) (hd : Text.isBlank d)
    (hcut₁ : Expr.Cut (plain ('(' :: (t ++ (" in".toList ++ u)) ++ ['\n', ')'])) ss₁ [])
    (hcut₂ : Expr.Cut (plain ('(' :: e ++ ['\n', ')'])) ss₂ []) (hcalm : ∀ s ∈ ss₂, Calm s) :
    .name "as" ∈ kindsOf ss₂ := by
  obtain ⟨u', bs, hbsne, hbs, hfirst, hsecond⟩ := Text.plain_before_blank u hne hbl
    (show 'a' ≠ '\n' by decide) ('s' :: d :: (back ++ ['\n', ')'])) [')']
  obtain ⟨b, bs, rfl⟩ := List.exists_cons_of_ne_nil hbsne
  rw [List.forall_mem_cons] at hbs
  have htext₁ : plain ('(' :: (t ++ (" in".toList ++ u)) ++ ['\n', ')']) =
      ('(' :: plain t) ++ ' ' :: ('i' :: 'n' :: (u' ++ ['\n', ')'])) := by
    rw [show '(' :: (t ++ (" in".toList ++ u)) ++ ['\n', ')'] =
      '(' :: (t ++ ' ' :: ('i' :: 'n' :: (u ++ '\n' :: [')']))) by simp, Text.plain_cons (by simp),
      Text.plain_append_cons (by decide), Text.plain_cons (by simp), Text.plain_cons (by simp),
      Text.plain_cons (by simp), hfirst]
    rfl
  have htext₂ : ' ' :: plain (e ++ ['\n', ')']) =
      u' ++ b :: (bs ++ plain ('a' :: 's' :: d :: (back ++ ['\n', ')']))) := by
    have hplain : plain (' ' :: (e ++ ['\n', ')'])) = ' ' :: plain (e ++ ['\n', ')']) :=
      Text.plain_cons (by simp)
    rw [← hplain, ← List.cons_append, hsplit]
    simpa using hsecond
  obtain ⟨after₁, hafter₁⟩ : ∃ after₁, Expr.Cut (u' ++ ['\n', ')']) after₁ [] := by
    rw [htext₁] at hcut₁
    cases u' with
    | nil => exact ht.cut_in htEnd (by rfl) hcut₁
    | cons c u' =>
      obtain rfl : ' ' = c := (List.cons.inj htext₂).1
      exact ht.cut_in htEnd (by rfl) hcut₁
  have hopening : plain ('(' :: e ++ ['\n', ')']) = '(' :: plain (e ++ ['\n', ')']) :=
    Text.plain_cons (by simp)
  rw [hopening] at hcut₂
  obtain ⟨after₂, rfl, hafter₂⟩ : ∃ after₂, ss₂ = ⟨['('], .lexeme (.symbol "(")⟩ :: after₂ ∧
      Expr.Cut (plain (e ++ ['\n', ')'])) after₂ [] :=
    Expr.Cut.unique (.snip (r := []) rfl rfl (.done _)) hcut₂
  rw [List.forall_mem_cons] at hcalm
  have hblank : Expr.Cut (' ' :: plain (e ++ ['\n', ')'])) (⟨[' '], .blank⟩ :: after₂) [] :=
    .snip (r := []) rfl rfl hafter₂
  rw [htext₂] at hblank
  obtain ⟨before, after, hss, hafter⟩ := hblank.behind_closed hbs.1
    (List.forall_mem_cons.mpr ⟨by simp, fun s hs => (hcalm.2 s hs).comment⟩) hafter₁
    (fun c hc => .inr (Option.some.inj hc).symm) (quotes_of_all (by decide))
  obtain ⟨before', after', rfl, hafter'⟩ := hafter.behind_blanks hbs.2
  obtain ⟨back', hback⟩ := Text.plain_head d (back ++ ['\n', ')'])
  rw [Text.plain_cons (by simp), Text.plain_cons (by simp), hback] at hafter'
  have hmem : .name "as" ∈ kindsOf (⟨[' '], .blank⟩ :: after₂) := by
    rw [hss, kindsOf_append, kindsOf_append]
    exact List.mem_append_right _ (List.mem_append_right _ (cut_as (isBlank_unreturned hd) hafter'))
  exact List.mem_cons_of_mem _ hmem

/-- A calm source is not split at ` as `. -/
theorem IsCalm.not_split {bl bl' t₁ e₁ : List Char} {s s₁ : Expr} (he : IsCalm e) (ht : IsTargetText t)
    (htEnd : ∀ c ∈ t.getLast?, ¬ Text.isLineEnd c) (hread : Expr.read? e = some s)
    (hsplit : Written.SplitsAs (t ++ (" in ".toList ++ e)) e₁ t₁ bl bl')
    (hread₁ : Expr.read? e₁ = some s₁) : False := by
  obtain ⟨u, rfl, hu⟩ := hsplit.behind_in ht htEnd
  obtain ⟨d, bl', rfl⟩ := List.exists_cons_of_ne_nil hsplit.blanks'.1
  obtain ⟨_, hall₁, -⟩ := Option.map_eq_some_iff.mp hread₁
  obtain ⟨_, _, hls₁, -⟩ := readAll_eq_some hall₁
  obtain ⟨ss₁, _, hcut₁, -⟩ := cut_of_lexemes? hls₁
  obtain ⟨_, hall₂, -⟩ := Option.map_eq_some_iff.mp hread
  obtain ⟨ls, stop, hls, hrun⟩ := readAll_eq_some hall₂
  obtain ⟨ss₂, ls', hcut₂, hsettled, hkinds, -⟩ := cut_of_lexemes? hls
  have hcalm : ∀ s ∈ ss₂, Calm s := by
    obtain ⟨ss, hss, hcalm⟩ := he
    obtain ⟨more, rfl, hmore⟩ := hss.unique hcut₂
    cases hmore
    rwa [List.append_nil]
  have hmem := IsCalm.as_mem ht htEnd hu hsplit.blanks.1 hsplit.blanks.2
    (hsplit.blanks'.2 d List.mem_cons_self) hcut₁ hcut₂ hcalm
  have hlexeme := mem_of_settleAll hmem hsettled
  rw [hkinds] at hlexeme
  obtain ⟨l, hl, hkind⟩ := List.mem_map.mp hlexeme
  have hforeign := (parseWithin_spares _ _ _ _ _ hrun).not_foreign l hl
  rw [hkind] at hforeign
  exact hforeign List.mem_cons_self

/-- In parentheses, with its lines, a calm source is read as on one line. -/
theorem source_of_calm {be : List Snip} {s s' : Expr} (he : IsCalm e)
    (heEnd : ∀ c ∈ e.getLast?, ¬ Text.isLineEnd c)
    (hbe : Expr.Cut (oneLine e ++ ":\n    pass".toList) be ":\n    pass".toList)
    (hsource : Phrase false (kindsOf be) .starExpressions s) (hread : Expr.read? e = some s') :
    s' = s := by
  have hclosing : Expr.Cut (oneLine e ++ ['\n', ')']) be ['\n', ')'] :=
    hbe.before (fun c hc => .inr (Option.some.inj hc).symm) (fun _ _ => .inr rfl) nofun
  obtain ⟨mid, hmid, hkinds⟩ := he.cut heEnd hclosing
  obtain ⟨node, hall, rfl⟩ := Option.map_eq_some_iff.mp hread
  obtain ⟨ls, -, hls, -⟩ := readAll_eq_some hall
  have hclosed : (kindsOf mid).foldlM shift [] = some [] := hkinds ▸ hsource.closed.closed
  have hls' := kinds_inParentheses hmid hclosed
    (plain_inParentheses fun hc => heEnd _ hc (by decide)) hls
  rw [hkinds] at hls'
  have hrow := readAll_row hls hls' hsource
  rw [hall] at hrow
  split at hrow
  · cases hrow
  · exact Option.some.inj hrow

end

end Stencil.Grammar

namespace Stencil.Written

open Grammar (IsTargetText IsCalm)

/-- The two texts of a stripped header with a word between them end and begin with no blank. -/
theorem ends_of_stripped {s : String} {a b : List Char} {w : List Char}
    (h : s.stripBlanks.toList = a ++ (' ' :: (w ++ ' ' :: b))) :
    a ≠ [] ∧ (∀ c ∈ a.head?, ¬ Text.isBlank c) ∧ b ≠ [] ∧ ∀ c ∈ b.getLast?, ¬ Text.isBlank c := by
  obtain ⟨hhead, hlast⟩ := not_isBlank_of_stripped s
  rw [h] at hhead hlast
  refine ⟨?_, ?_, ?_, ?_⟩
  · rintro rfl
    exact hhead ' ' rfl (by decide)
  · intro c hc
    obtain ⟨a, rfl⟩ := List.head?_eq_some_iff.mp hc
    exact hhead c rfl
  · rintro rfl
    refine hlast ' ' ?_ (by decide)
    rw [← List.cons_append, ← List.append_assoc]
    exact List.getLast?_concat
  · intro c hc
    obtain ⟨b, rfl⟩ := List.getLast?_eq_some_iff.mp hc
    refine hlast c ?_
    rw [← List.cons_append, ← List.cons_append, ← List.append_assoc, ← List.append_assoc]
    exact List.getLast?_concat

/-- Where both are accepted, the two forms of a header say the same. -/
theorem header_forms_agree {w w' : Written} {t e : List Char} {target source target' source' : Code}
    (hin : w.arguments.stripBlanks.toList = t ++ (" in ".toList ++ e))
    (has : w'.arguments.stripBlanks.toList = e ++ (" as ".toList ++ t)) (ht : IsTargetText t)
    (he : IsCalm e) (h : w.loopHeader = .ok (target, source))
    (h' : w'.loopHeader = .ok (target', source')) :
    target.expr = target'.expr ∧ source.expr = source'.expr := by
  obtain ⟨htNe, htHead, heNe, heLast⟩ := ends_of_stripped (a := t) (b := e) (w := ['i', 'n']) hin
  obtain ⟨-, -, -, htLast⟩ := ends_of_stripped (a := e) (b := t) (w := ['a', 's']) has
  have htEnd : ∀ c ∈ t.getLast?, ¬ Text.isLineEnd c := fun c hc hline =>
    htLast c hc (isBlank_of_isLineEnd hline)
  have heEnd : ∀ c ∈ e.getLast?, ¬ Text.isLineEnd c := fun c hc hline =>
    heLast c hc (isBlank_of_isLineEnd hline)
  obtain ⟨bt, hbt, -, hkinds⟩ := ht.pieces
  have hcomment := ht.uncommented_oneLine htEnd
  obtain ⟨-, hreads⟩ := loopHeader_ok h
  obtain ⟨-, hreads'⟩ := loopHeader_ok h'
  rw [hin] at hreads
  rw [has] at hreads'
  cases hreads' with
  | membership hheader' =>
    rw [Grammar.not_membership he heEnd ht htEnd] at hheader'
    cases hheader'
  | @naming e' t' hd' hnone hsplit hnamed htarget' hsource' =>
    rw [splitAs?_eq heNe htNe htHead fun hholds =>
      ht.not_holdsAs htEnd (hholds.append " in ".toList)] at hsplit
    cases hsplit
    cases hreads with
    | naming hnone₁ hsplit₁ hnamed₁ htarget₁ hsource₁ =>
      obtain ⟨bl, bl', hsplits⟩ := search_eq_some hsplit₁
      exact (he.not_split ht htEnd hsource' hsplits hsource₁).elim
    | @membership hd hheader htarget hsource =>
      obtain ⟨be, ls, n, tn, sn, T, S, hbe, hphrases, hall, htn, hsn⟩ :=
        Grammar.membership_frame hbt hcomment htEnd heEnd he hheader
      have hsourceExpr := hsn _ hsource
      have hK := Grammar.naming_frame hbt hcomment (fun hmem => absurd (hkinds _ hmem) (by decide))
        htEnd hnamed
      obtain ⟨rfl, htn'⟩ := hphrases.target_unique hall hK
      obtain rfl : S = Grammar.kindsOf be := by
        have hsplit := List.append_cancel_left (List.cons.inj (hphrases.kinds.symm.trans hall)).2
        exact List.append_cancel_right (List.cons.inj hsplit).2
      refine ⟨htarget.symm.trans (htn.trans (htn'.trans htarget')), ?_⟩
      rw [hsourceExpr]
      exact (Grammar.source_of_calm he heEnd hbe hphrases.source hsource').symm

/-- A header on two lines. -/
def paired : Written := ⟨⟨1, 0⟩, some (.opening .foreachBlock), "x in [1,\n 2]"⟩

/-- The same with `as`. -/
def pairedAs : Written := ⟨⟨1, 0⟩, some (.opening .foreachBlock), "[1,\n 2] as x"⟩

theorem isTargetText_x : IsTargetText "x".toList where
  uncommented := by decide
  lexemes := ⟨_, rfl, by decide⟩

theorem isCalm_pair : IsCalm "[1,\n 2]".toList := by
  refine ⟨_, .snip (r := []) rfl rfl (.snip (r := []) rfl rfl (.snip (r := []) rfl rfl
    (.snip (r := []) rfl rfl (.snip (r := []) rfl rfl (.snip (r := []) rfl rfl
    (.snip (r := []) rfl rfl (.snip (r := []) rfl rfl (.snip (r := []) rfl rfl
    (.snip (r := []) rfl rfl (.done [])))))))))), ?_⟩
  simp only [List.forall_mem_cons]
  refine ⟨?_, ?_, ?_, ?_, ?_, ?_, ?_, ?_, ?_, ?_, nofun⟩
  all_goals exact ⟨by decide, by simp; try decide⟩

theorem loopHeader_of_isSome {w : Written} (h : w.loopHeader.toOption.isSome) :
    ∃ target source, w.loopHeader = .ok (target, source) := by
  cases hheader : w.loopHeader with
  | error r =>
    rw [hheader] at h
    cases h
  | ok read => exact ⟨read.1, read.2, rfl⟩

theorem paired_forms_agree : ∃ target source target' source',
    paired.loopHeader = .ok (target, source) ∧ pairedAs.loopHeader = .ok (target', source') ∧
      target.expr = target'.expr ∧ source.expr = source'.expr := by
  obtain ⟨target, source, h⟩ := loopHeader_of_isSome (w := paired) (by decide +kernel)
  obtain ⟨target', source', h'⟩ := loopHeader_of_isSome (w := pairedAs) (by decide +kernel)
  exact ⟨target, source, target', source', h, h',
    header_forms_agree (t := "x".toList) (e := "[1,\n 2]".toList) (by decide +kernel)
      (by decide +kernel) isTargetText_x isCalm_pair h h'⟩

/-- A source with a line separator in a string literal. -/
def separated : Written := ⟨⟨1, 0⟩, some (.opening .foreachBlock), "x in ['a\u2028b']"⟩

/-- The same with `as`. -/
def separatedAs : Written := ⟨⟨1, 0⟩, some (.opening .foreachBlock), "['a\u2028b'] as x"⟩

/-- On one line the literal has a blank in place of the separator. -/
theorem separator_read_as_blank :
    (separated.loopHeader.toOption.any fun r =>
      match r.1.expr, r.2.expr with
      | .name "x", .display .list [.literal (.text "a b")] => true
      | _, _ => false) = true ∧
    (separatedAs.loopHeader.toOption.any fun r =>
      match r.1.expr, r.2.expr with
      | .name "x", .display .list [.literal (.text "a\u2028b")] => true
      | _, _ => false) = true := by
  refine ⟨?_, ?_⟩
  · decide +kernel
  · decide +kernel

end Stencil.Written
