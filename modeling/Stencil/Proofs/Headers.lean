import Stencil.Proofs.Frames
import Stencil.Proofs.OneLines
import Stencil.Proofs.Stretches

/-!
# What loop headers are read from

The source of a loop is read a second time, from the stretch of the header that it was found in, and
comes to the same. The target is what the header begins with, or the text behind `as`.
-/

namespace Stencil.Grammar

open Stencil.Expr (Lexeme LexemeKind lexemes? Snip Cut textOf settleAll stretch)

/-- The lexemes of a text in parentheses that closes its brackets. -/
theorem kinds_inParentheses {text u : List Char} {mid : List Snip} {ls : List Lexeme}
    (hcut : Cut (u ++ ['\n', ')']) mid ['\n', ')'])
    (hclosed : (kindsOf mid).foldlM shift [] = some [])
    (htext : plain text = '(' :: (u ++ ['\n', ')'])) (h : lexemes? text = some ls) :
    ls.map (·.kind) = inParentheses (kindsOf mid) := by
  obtain ⟨ss, ls', hss, hall, hkinds, -⟩ := cut_of_lexemes? h
  have hknown : Cut (plain text) (⟨['('], .lexeme (.symbol "(")⟩ ::
      (mid ++ [⟨['\n'], .newline⟩, ⟨[')'], .lexeme (.symbol ")")⟩])) [] := by
    rw [htext]
    exact .snip (r := []) rfl rfl (hcut.append
      (.snip (r := []) rfl rfl (.snip (r := []) rfl rfl (.done []))))
  have hall := settleAll_known hknown hss hall
  obtain ⟨k, next, inner, hsettled, hinner, rfl⟩ := settleAll_cons hall
  cases hsettled with
  | lexeme hshift =>
    cases hshift
    obtain ⟨front, p, back, hfront, hback, rfl⟩ := settleAll_split hinner
    obtain ⟨hfrontKinds, rfl⟩ := settleAll_inside (p := []) hclosed hfront
    obtain ⟨rfl, -⟩ := Prod.mk.inj (Option.some.inj hback)
    rw [← hkinds]
    change _ :: (front ++ _).map _ = _
    rw [List.map_append, hfrontKinds]
    rfl

theorem Phrase.ne_nil {targets : Bool} {ks : List LexemeKind} {g : Goal} {e : Expr}
    (hg : Allowed targets g) (h : Phrase targets ks g e) : ks ≠ [] := by
  rintro rfl
  have hself : Twins targets [] (alone []) (alone []) := ⟨rfl, rfl, .nothing, .nothing⟩
  have halike := hself.reads (g := g) h.closed (fun _ => hg) (Nat.le_refl _) (Nat.le_refl _)
  obtain ⟨j, hlt, hj, -⟩ := halike.outcome_some (h.read (alone []) _ rfl .nothing (Nat.le_refl _))
  exact absurd hj.le (Nat.not_le_of_lt hlt)

section

variable {ls : List Lexeme} {x y : List Char} {before : List Snip} {l : Lexeme}
  {front back : List Lexeme} {i j : Nat}

/-- The stretch of some lexemes behind the first one is cut into their pieces. -/
theorem stretch_pieces (hls : ls = l :: (front ++ back)) (hcut : Cut (x ++ y) before y)
    (hfront : settleAll 4 [] before = some (front, [])) (hi : 1 ≤ i) (hij : i < j)
    (hj : j ≤ front.length + 1) (hline : '\n' ∉ x) :
    ∃ mid r, (stretch ("for ".toList ++ (x ++ y)) ((alone ls).span i j)).toList = textOf mid ∧
      Cut (textOf mid ++ r) mid r ∧ kindsOf mid = ((ls.map (·.kind)).drop i).take (j - i) ∧
      ∀ c ∈ textOf mid, c ∈ x := by
  obtain ⟨i, rfl⟩ : ∃ i', i = i' + 1 := ⟨i - 1, by omega⟩
  have hget {k : Nat} (hk : k < front.length) : ls[k + 1]? = some front[k] := by
    rw [hls, List.getElem?_cons_succ, List.getElem?_append_left hk, List.getElem?_eq_getElem hk]
  obtain ⟨A, M, B, rfl, hA, hM⟩ : ∃ A M B, front = A ++ (M ++ B) ∧ A.length = i ∧
      M.length = j - (i + 1) := by
    refine ⟨front.take i, (front.drop i).take (j - (i + 1)), front.drop (j - 1), ?_, ?_, ?_⟩
    · have h := List.take_append_drop (j - (i + 1)) (front.drop i)
      rw [List.drop_drop, show i + (j - (i + 1)) = j - 1 by omega] at h
      rw [h, List.take_append_drop]
    · rw [List.length_take]
      omega
    · rw [List.length_take, List.length_drop]
      omega
  subst hA
  have hkinds : ((ls.map (·.kind)).drop (A.length + 1)).take (j - (A.length + 1)) =
      M.map (·.kind) := by
    rw [hls, List.map_cons, List.drop_succ_cons, ← List.map_drop, ← List.map_take, List.append_assoc,
      List.drop_left, List.append_assoc, List.take_left' hM]
  have hne : M ≠ [] := by
    rintro rfl
    rw [List.length_nil] at hM
    omega
  have hstart : (alone ls).start (A.length + 1) = (M.head hne).start := by
    have hhead : ls[A.length + 1]? = some (M.head hne) := by
      rw [hls, List.getElem?_cons_succ, List.append_assoc, List.append_assoc,
        List.getElem?_append_right (Nat.le_refl _), Nat.sub_self, List.getElem?_append_left
        (List.length_pos_of_ne_nil hne), ← List.head?_eq_getElem?, List.head?_eq_some_head hne]
    rw [Window.start, alone_rest, List.head?_drop, hhead]
    rfl
  have hstop : (alone ls).stop j = (M.getLast hne).stop := by
    have hlast : ls[j - 1]? = some (M.getLast hne) := by
      rw [hls, show j - 1 = A.length + (M.length - 1) + 1 by omega, List.getElem?_cons_succ,
        List.append_assoc, List.append_assoc, List.getElem?_append_right (Nat.le_add_right _ _),
        Nat.add_sub_cancel_left, List.getElem?_append_left (by omega), ← List.getLast?_eq_getElem?,
        List.getLast?_eq_some_getLast hne]
    obtain ⟨j, rfl⟩ : ∃ j', j = j' + 1 := ⟨j - 1, by omega⟩
    rw [Nat.add_sub_cancel] at hlast
    rw [Window.stop, alone, hlast]
    rfl
  obtain ⟨b, mid, after, p, q, rfl, hfirst, hlast, hmid⟩ :=
    pieces_between (List.head?_eq_some_head hne) (List.getLast?_eq_some_getLast hne) hfront
  obtain ⟨r₁, hcut₁, hcut₂⟩ := hcut.split
  obtain ⟨r₂, hcut₂, hcut₃⟩ := hcut₂.split
  obtain rfl := hcut₂.text_eq
  obtain rfl := hcut₃.text_eq
  have hx : x = textOf b ++ (textOf mid ++ textOf after) := by
    have htext := hcut₁.text_eq
    rw [← List.append_assoc (textOf mid), ← List.append_assoc] at htext
    exact List.append_cancel_right htext
  have hsub : ∀ c ∈ textOf mid, c ∈ x := fun c hc => by
    rw [hx]
    exact List.mem_append_right _ (List.mem_append_left _ hc)
  refine ⟨mid, textOf after ++ y, ?_, hcut₂, ?_, hsub⟩
  · rw [stretch, String.toList_ofList, Window.span, hstart, hstop, hfirst, hlast, hcut₁.text_eq]
    have hdrop : 4 + (textOf b).length = ("for ".toList ++ textOf b).length := by
      rw [List.length_append]
      rfl
    rw [Nat.add_sub_cancel_left, hdrop, ← List.append_assoc, List.drop_left, List.take_left]
  · rw [hkinds, kinds_of_settleAll (piece_ne_newline hcut₂ fun hmem => hline (hsub _ hmem)) hmid]

/-- What is read from the stretch of the source is the source. -/
theorem source_of_stretch {n : Nat} {t s : Node} {T S : List LexemeKind} {e : Expr}
    (h : HeaderPhrases ls n t s T S) (hls : ls = l :: (front ++ back))
    (hcut : Cut (x ++ y) before y) (hfront : settleAll 4 [] before = some (front, []))
    (hlength : T.length + 2 + S.length ≤ front.length + 1) (hline : '\n' ∉ x) (hreturn : '\r' ∉ x)
    (hread : Expr.read? (stretch ("for ".toList ++ (x ++ y)) s.span).toList = some e) :
    e = s.expr := by
  obtain ⟨i, j, hspan, hgrouped⟩ := h.stretch
  have hnoTargets : Allowed false .starExpressions := fun htargets => (nomatch htargets)
  have hS : 0 < S.length := List.length_pos_of_ne_nil (h.source.ne_nil hnoTargets)
  obtain ⟨hi, hij, hj⟩ := hgrouped.bounds fun _ => by omega
  obtain ⟨mid, r, htext, hmid, hkinds, hsub⟩ :=
    stretch_pieces hls hcut hfront (by omega) hij (by omega) hline
  have hdrop : (ls.map (·.kind)).drop (T.length + 2) = S ++ [.symbol ":", .newline, .name "pass"] := by
    rw [h.kinds, List.drop_succ_cons, List.append_cons, List.drop_left' (by simp)]
  have hwhole : ((ls.map (·.kind)).drop (T.length + 2)).take (T.length + 2 + S.length -
      (T.length + 2)) = S := by
    rw [hdrop, Nat.add_sub_cancel_left, List.take_left]
  have hends : Ends false ((alone ls).cursor (T.length + 2 + S.length)).rest := by
    have hrest : (((alone ls).cursor (T.length + 2 + S.length)).rest).map (·.kind) =
        [.symbol ":", .newline, .name "pass"] := by
      rw [alone_rest, List.map_drop, ← List.drop_drop, hdrop, List.drop_left]
    obtain ⟨l₁, ls₁, heq, hl₁, hmap⟩ := List.map_eq_cons_iff.mp hrest
    obtain ⟨l₂, ls₂, rfl, hl₂, -⟩ := List.map_eq_cons_iff.mp hmap
    rw [heq]
    exact .colon hl₁ hl₂
  rw [hspan, htext] at hread
  obtain ⟨node, hall, he⟩ := Option.map_eq_some_iff.mp hread
  obtain ⟨ls', -, hls', -⟩ := readAll_eq_some hall
  have hreturn' : '\r' ∉ '(' :: textOf mid ++ ['\n', ')'] := by
    rw [List.cons_append, List.mem_cons, List.mem_append, not_or, not_or]
    exact ⟨by decide, fun hmem => hreturn (hsub _ hmem), by decide⟩
  have hkinds' (hclosed : Open (((ls.map (·.kind)).drop i).take (j - i)) 0 []) :
      ls'.map (·.kind) = inParentheses (((ls.map (·.kind)).drop i).take (j - i)) := by
    rw [← hkinds] at hclosed ⊢
    exact kinds_inParentheses (hmid.before
      (show Expr.Inert ['\n', ')'] from fun c hc => .inr (Option.some.inj hc).symm) (fun _ _ => .inr rfl) nofun) hclosed.closed
        (plain_eq hreturn') hls'
  rcases hgrouped.phrase hends with ⟨rfl, rfl⟩ | ⟨hclosed, hphrase⟩
  · rw [hwhole] at hkinds'
    have hrow := readAll_row hls' (hkinds' h.source.closed) h.source
    rw [hall] at hrow
    split at hrow
    · cases hrow
    · exact he.symm.trans (Option.some.inj hrow)
  · have hgroup := readAll_group hls' (hkinds' hclosed) hphrase
    rw [hall] at hgroup
    exact he.symm.trans (Option.some.inj hgroup)

end

def membership (parse : Goal → Parser Node) : Parser (Node × Node) := do
  let target ← parse .targets
  Parser.expectWord "in"
  let source ← parse .starExpressions
  return (target, source)

theorem expectWord_head {l : Lexeme} {ls : List Lexeme} {stop : Nat} {w : String}
    (h : l.kind = .name w) : (Parser.expectWord w).run ⟨l :: ls, stop⟩ = some ((), ⟨ls, l.stop⟩) := by
  rw [Parser.expectWord, Parser.acceptWord, StateT.run_bind, StateT.run_bind, atWord_run,
    List.head?_cons, Option.map_some, h, decide_eq_true rfl]
  rfl

theorem readAll_membership {x : List Char} {ls : List Lexeme} {T S : List LexemeKind} {t s : Expr}
    (hls : lexemes? x = some ls) (hks : ls.map (·.kind) = T ++ .name "in" :: S)
    (hT : Phrase true T .targets t) (hS : Phrase false S .starExpressions s) :
    (readAll x membership).map (fun r => (r.1.expr, r.2.expr)) = some (t, s) := by
  have hlength : (ls.map (·.kind)).length = T.length + 1 + S.length := by
    rw [hks, List.length_append, List.length_cons]
    omega
  have hdeep := enough_le_depthFor hls
  have hin : (ls.map (·.kind))[T.length]? = some (.name "in") := by
    rw [hks, List.getElem?_append_right (Nat.le_refl _), Nat.sub_self]
    rfl
  obtain ⟨l, hget, hl, hcursor⟩ := Window.cursor_of_kind (V := alone ls) rfl hin
  have hstop : (alone ls).cursor (T.length + 1) = ⟨((alone ls).cursor (T.length + 1)).rest, l.stop⟩ := by
    rw [Window.cursor, Window.stop, hget]
    rfl
  have htarget := hT.read_between (A := []) hks (fun _ => .of_word (.inr ⟨rfl, rfl⟩)) hdeep
  have hsource := hS.read_between (A := T ++ [.name "in"]) (B := [])
    (by rw [hks, List.append_nil, List.append_assoc, List.singleton_append])
    (fun _ hnil => List.map_eq_nil_iff.mp hnil ▸ .nothing) hdeep
  rw [List.length_nil, Nat.zero_add] at htarget
  rw [List.length_append, List.length_singleton] at hsource
  obtain ⟨t', hrun, rfl⟩ := outcome_eq_some.mp htarget
  obtain ⟨s', hrun', rfl⟩ := outcome_eq_some.mp hsource
  have hall : (membership (parseWithin (depthFor x.length))).run ⟨ls, 0⟩ =
      some ((t', s'), (alone ls).cursor (T.length + 1 + S.length)) := by
    rw [← alone_cursor, membership, StateT.run_bind, hrun]
    change ((Parser.expectWord "in").run ((alone ls).cursor T.length)).bind _ = _
    rw [hcursor, expectWord_head hl, Option.bind_some, ← hstop]
    change ((parseWithin (depthFor x.length) .starExpressions).run
      ((alone ls).cursor (T.length + 1))).bind _ = _
    rw [hrun']
    rfl
  unfold readAll
  rw [hls]
  dsimp only
  rw [hall]
  have hend : ((alone ls).cursor (T.length + 1 + S.length)).rest = [] := by
    rw [← hlength, alone_end]
  generalize (alone ls).cursor (T.length + 1 + S.length) = c at hend
  obtain ⟨rest, stop⟩ := c
  cases hend
  rfl

theorem readHeader?_phrases {text : List Char} {h : Expr.LoopHeader}
    (hread : Expr.readHeader? text = some h) :
    ∃ ls n t s T S, lexemes? ("for ".toList ++ (Text.oneLine text ++ ":\n    pass".toList)) = some ls ∧
      HeaderPhrases ls n t s T S ∧ h.target.expr = t.expr ∧
      h.source.text = stretch ("for ".toList ++ (Text.oneLine text ++ ":\n    pass".toList)) s.span := by
  unfold Expr.readHeader? at hread
  rw [List.append_assoc] at hread
  obtain ⟨⟨t, s⟩, hall, rfl⟩ := Option.map_eq_some_iff.mp hread
  obtain ⟨ls, stop, hls, hrun⟩ := readAll_eq_some hall
  obtain ⟨T, S, hphrases⟩ := headerRule_phrases (lexemes?_open hls).1 (enough_le_depthFor hls) hrun
  exact ⟨ls, _, t, s, T, S, hls, hphrases, rfl, rfl⟩

/-- What is hidden at the end of a header: nothing, or a colon with a comment behind it. -/
def Hidden (dropped : List Char) : Prop :=
  dropped = [] ∨ ∃ blanks comment, dropped = ':' :: (blanks ++ '#' :: comment) ∧
    ∀ c ∈ blanks, c ∈ [' ', '\t', '\x0c']

section

variable {text : List Char} {h : Expr.LoopHeader}

open Text (oneLine newline_not_mem_oneLine return_not_mem_oneLine)

/-- A header is read as target and source up to what is hidden. -/
theorem membership_of_header {e : Expr} (hread : Expr.readHeader? text = some h)
    (hsource : Expr.read? h.source.text.toList = some e) :
    ∃ x dropped, oneLine text = x ++ dropped ∧ Hidden dropped ∧
      (readAll x membership).map (fun r => (r.1.expr, r.2.expr)) = some (h.target.expr, e) := by
  obtain ⟨ls, n, t, s, T, S, hls, hphrases, htarget, hstretch⟩ := readHeader?_phrases hread
  have hline := newline_not_mem_oneLine text
  have hreturn := return_not_mem_oneLine text
  have hnull : Char.ofNat 0 ∉ oneLine text := fun hmem =>
    null_of_lexemes hls (List.mem_append_right _ (List.mem_append_left _ hmem))
  generalize oneLine text = x at hls hstretch hline hreturn hnull
  rw [htarget]
  rw [hstretch] at hsource
  have hkinds := hphrases.kinds
  cases framed_colon hline hreturn hls with
  | @whole l front back before hfor hl hback hbefore hfront =>
    rw [hfor, List.map_cons, List.map_append, hl, hback] at hkinds
    have hfrontKinds : front.map (·.kind) = T ++ .name "in" :: S := by
      have hsplit := (List.cons.inj hkinds).2
      rw [← List.cons_append, ← List.append_assoc] at hsplit
      exact List.append_cancel_right hsplit
    have hlength := congrArg List.length hfrontKinds
    simp only [List.length_map, List.length_append, List.length_cons] at hlength
    obtain rfl := source_of_stretch hphrases hfor hbefore hfront (by omega) hline hreturn hsource
    obtain ⟨lx, hlx, hlxKinds⟩ := lexemes_of_front hbefore hfront hline hreturn hnull
    exact ⟨x, [], (List.append_nil x).symm, .inl rfl,
      readAll_membership hlx (hlxKinds.trans hfrontKinds) hphrases.target hphrases.source⟩
  | @comment l front back before x' hidden hfor hl hback hx hbefore hfront =>
    subst hx
    rw [hfor, List.map_cons, List.map_append, hl, hback] at hkinds
    have hfrontKinds : front.map (·.kind) = T ++ .name "in" :: S ++ [.symbol ":"] := by
      have hsplit := (List.cons.inj hkinds).2
      rw [← List.cons_append, ← List.append_assoc] at hsplit
      exact List.append_cancel_right (hsplit.trans (List.append_cons ..))
    have hlength := congrArg List.length hfrontKinds
    simp only [List.length_map, List.length_append, List.length_cons, List.length_nil] at hlength
    rw [List.mem_append, not_or] at hline hreturn hnull
    rw [List.append_assoc] at hsource hbefore
    obtain rfl := source_of_stretch hphrases hfor hbefore hfront (by omega) hline.1 hreturn.1 hsource
    obtain ⟨A, C, rfl, hA, hC⟩ := List.map_eq_append_iff.mp hfrontKinds
    obtain ⟨c, rfl, hc⟩ := List.map_eq_singleton_iff.mp hC
    obtain ⟨x₁, x₂, b₁, colon, b₂, p, q, rfl, hcut₁, hb₁, hcolon, hcolonText, hcut₂, hb₂⟩ :=
      text_at hbefore hfront
    obtain rfl := pending_of_nothing hb₂
    obtain rfl := hcolon.stays (by rw [hc]; rfl)
    obtain ⟨lx, hlx, hlxKinds⟩ := lexemes_of_front hcut₁ hb₁
      (fun hmem => hline.1 (List.mem_append_left _ hmem))
      (fun hmem => hreturn.1 (List.mem_append_left _ hmem))
      (fun hmem => hnull.1 (List.mem_append_left _ hmem))
    have hblank := blank_line (fun hmem => hline.1 (List.mem_append_right _
      (List.mem_append_right _ hmem))) rfl hcut₂ hb₂
    refine ⟨x₁, ':' :: (x₂ ++ '#' :: hidden), ?_, .inr ⟨x₂, hidden, rfl, hblank⟩,
      readAll_membership hlx (hlxKinds.trans hA) hphrases.target hphrases.source⟩
    rw [hcolonText ":" (.inr hc)]
    simp

/-- What is hidden behind a target: nothing, or the word `in` and what follows it. -/
def Cloaked (dropped : List Char) : Prop :=
  dropped = [] ∨ ∃ rest, dropped = "in".toList ++ rest

/-- A target in front of a word `in` is read from what stands there. -/
theorem target_before_in {x y : List Char} {before : List Snip} {front : List Lexeme}
    {T : List LexemeKind} {e : Expr} (hcut : Cut (x ++ y) before y)
    (hfront : settleAll 4 [] before = some (front, [])) (hline : '\n' ∉ x) (hreturn : '\r' ∉ x)
    (hnull : Char.ofNat 0 ∉ x) (hT : Phrase true T .targets e)
    {R : List LexemeKind} (hkinds : front.map (·.kind) = T ++ .name "in" :: R) :
    ∃ x₁ rest, x = x₁ ++ ("in".toList ++ rest) ∧
      (readAll x₁ fun parse => parse .targets).map (·.expr) = some e := by
  obtain ⟨A, B, rfl, hA, hB⟩ := List.map_eq_append_iff.mp hkinds
  obtain ⟨c, B, rfl, hc, -⟩ := List.map_eq_cons_iff.mp hB
  obtain ⟨x₁, x₂, b₁, word, b₂, p, q, rfl, hcut₁, hb₁, hword, hwordText, hcut₂, hb₂⟩ :=
    text_at hcut hfront
  have hp : p = [] := by
    have hopen := foldlM_of_settleAll hb₁
    rw [hA, ← List.drop_zero (l := T), hT.closed.closed] at hopen
    exact (Option.some.inj hopen).symm
  subst hp
  rw [List.mem_append, not_or] at hline hreturn hnull
  obtain ⟨lx, hlx, hlxKinds⟩ := lexemes_of_front hcut₁ hb₁ hline.1 hreturn.1 hnull.1
  refine ⟨x₁, x₂, ?_, hT.readAll hlx (hlxKinds.trans hA)⟩
  rw [hwordText "in" (.inl hc)]

/-- A text behind `as` is read as a target up to what is hidden behind it. -/
theorem target_of_header (hend : ∀ c ∈ text.getLast?, ¬ Text.isLineEnd c)
    (hread : Expr.readHeader? (text ++ " in _".toList) = some h) :
    ∃ x dropped, oneLine text = x ++ dropped ∧ Cloaked dropped ∧
      (readAll x fun parse => parse .targets).map (·.expr) = some h.target.expr := by
  obtain ⟨ls, n, t, s, T, S, hls, hphrases, htarget, -⟩ := readHeader?_phrases hread
  have hframe : oneLine (text ++ " in _".toList) = oneLine text ++ " in _".toList :=
    (Text.oneLine_append (b := "in _".toList) hend fun c hc => by
      cases hc
      decide).trans (congrArg _ (by decide))
  rw [hframe] at hls
  have hline := newline_not_mem_oneLine text
  have hreturn := return_not_mem_oneLine text
  have hnull : Char.ofNat 0 ∉ oneLine text := fun hmem => null_of_lexemes hls
    (List.mem_append_right _ (List.mem_append_left _ (List.mem_append_left _ hmem)))
  generalize oneLine text = x at hls hline hreturn hnull
  rw [htarget]
  have hkinds := hphrases.kinds
  cases framed_in hline hreturn hls with
  | @whole l front back before hfor hl hback hbefore hfront =>
    rw [hfor, List.map_cons, List.map_append, hl, hback] at hkinds
    have hsplit : front.map (·.kind) ++ [.name "in", .name "_"] = T ++ .name "in" :: S := by
      have hsplit := (List.cons.inj hkinds).2
      rw [← List.cons_append, ← List.append_assoc] at hsplit
      exact List.append_cancel_right (((List.append_assoc ..).trans rfl).trans hsplit)
    have hfrontKinds : front.map (·.kind) = T ∨
        ∃ R, front.map (·.kind) = T ++ .name "in" :: R := by
      rcases List.append_eq_append_iff.mp hsplit with ⟨_ | ⟨a, as⟩, hT, hin⟩ | ⟨_ | ⟨a, as⟩, hT, hin⟩
      · exact .inl (hT.trans (List.append_nil _)).symm
      · obtain ⟨rfl, has⟩ := List.cons.inj hin
        cases as with
        | nil => simp at has
        | cons b as => simp at has
      · exact .inl (hT.trans (List.append_nil T))
      · obtain ⟨rfl, -⟩ := List.cons.inj hin
        exact .inr ⟨as, hT⟩
    rcases hfrontKinds with hfrontKinds | ⟨R, hfrontKinds⟩
    · obtain ⟨lx, hlx, hlxKinds⟩ := lexemes_of_front hbefore hfront hline hreturn hnull
      exact ⟨x, [], (List.append_nil x).symm, .inl rfl,
        hphrases.target.readAll hlx (hlxKinds.trans hfrontKinds)⟩
    · obtain ⟨x₁, rest, rfl, hall⟩ := target_before_in hbefore hfront hline hreturn hnull
        hphrases.target hfrontKinds
      exact ⟨x₁, _, rfl, .inr ⟨rest, rfl⟩, hall⟩
  | @comment l front back before x' hidden hfor hl hback hx hbefore hfront =>
    subst hx
    rw [hfor, List.map_cons, List.map_append, hl, hback] at hkinds
    have hfrontKinds : front.map (·.kind) = T ++ .name "in" :: (S ++ [.symbol ":"]) := by
      have hsplit := (List.cons.inj hkinds).2
      rw [List.append_cons S, ← List.cons_append, ← List.append_assoc] at hsplit
      exact List.append_cancel_right hsplit
    rw [List.mem_append, not_or] at hline hreturn hnull
    rw [List.append_assoc] at hbefore
    obtain ⟨x₁, rest, rfl, hall⟩ := target_before_in hbefore hfront hline.1 hreturn.1 hnull.1
      hphrases.target hfrontKinds
    exact ⟨x₁, "in".toList ++ (rest ++ '#' :: hidden), by simp, .inr ⟨_, rfl⟩, hall⟩

end

end Stencil.Grammar
