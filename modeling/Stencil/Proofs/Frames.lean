import Stencil.Proofs.Bracketing
import Stencil.Proofs.Seams

/-!
# Texts in frames

A loop header is read as the first line of a loop. The lexemes of this frame are those of the header
between those that the frame adds, unless a comment hides the end of the first line.
-/

namespace Stencil.Grammar

open Stencil.Expr

theorem emit_append (start stop : Nat) (k : Option LexemeKind) (ls ls' : List Lexeme) :
    emit start stop k ls ++ ls' = emit start stop k (ls ++ ls') := by
  cases k <;> rfl

theorem length_textOf_cons (s : Snip) (ss : List Snip) :
    (textOf (s :: ss)).length = s.text.length + (textOf ss).length := by
  rw [textOf, List.length_append]

section

variable {n : Nat} {pending left : List Char} {ss ss' : List Snip} {ls ls' : List Lexeme}

theorem settleAll_append (h : settleAll n pending ss = some (ls, left)) :
    settleAll n pending (ss ++ ss') =
      (settleAll (n + (textOf ss).length) left ss').map fun r => (ls ++ r.1, r.2) := by
  induction ss generalizing n pending ls with
  | nil =>
    cases h
    rw [List.nil_append, textOf, List.length_nil, Nat.add_zero]
    cases settleAll n left ss' <;> rfl
  | cons s ss ih =>
    rw [settleAll] at h
    obtain ⟨⟨k, next⟩, hsettle, h⟩ := Option.bind_eq_some_iff.mp h
    obtain ⟨⟨ls, left⟩, hrest, heq⟩ := Option.map_eq_some_iff.mp h
    cases heq
    rw [List.cons_append, settleAll, hsettle, Option.bind_some, ih hrest, length_textOf_cons,
      ← Nat.add_assoc]
    cases settleAll (n + s.text.length + (textOf ss).length) left ss' with
    | none => rfl
    | some r => simp [emit_append]

theorem settleAll_split (h : settleAll n pending (ss ++ ss') = some (ls, left)) :
    ∃ front middle back, settleAll n pending ss = some (front, middle) ∧
      settleAll (n + (textOf ss).length) middle ss' = some (back, left) ∧ ls = front ++ back := by
  cases hss : settleAll n pending ss with
  | none =>
    exfalso
    induction ss generalizing n pending ls with
    | nil => cases hss
    | cons s ss ih =>
      rw [List.cons_append, settleAll] at h
      obtain ⟨⟨k, next⟩, hsettle, h⟩ := Option.bind_eq_some_iff.mp h
      obtain ⟨⟨ls', left⟩, hrest, heq⟩ := Option.map_eq_some_iff.mp h
      cases heq
      rw [settleAll, hsettle, Option.bind_some, Option.map_eq_none_iff] at hss
      exact ih hrest hss
  | some r =>
    obtain ⟨front, middle⟩ := r
    rw [settleAll_append hss] at h
    obtain ⟨⟨back, left⟩, hback, heq⟩ := Option.map_eq_some_iff.mp h
    cases heq
    exact ⟨front, middle, back, rfl, hback, rfl⟩

theorem settleAll_at {l : Lexeme} (h : settleAll n pending ss = some (ls ++ l :: ls', left)) :
    ∃ before s after p q, ss = before ++ s :: after ∧ settleAll n pending before = some (ls, p) ∧
      settle p s.piece = some (some l.kind, q) ∧ l.start = n + (textOf before).length ∧
      l.stop = l.start + s.text.length ∧ settleAll l.stop q after = some (ls', left) := by
  induction ss generalizing n pending ls with
  | nil =>
    have hnil : [] = ls ++ l :: ls' := (Prod.mk.inj (Option.some.inj h)).1
    simp at hnil
  | cons s ss ih =>
    have h' := h
    rw [settleAll] at h'
    obtain ⟨⟨k, next⟩, hsettle, h'⟩ := Option.bind_eq_some_iff.mp h'
    obtain ⟨⟨ls₀, left₀⟩, hrest, heq⟩ := Option.map_eq_some_iff.mp h'
    obtain ⟨hls, rfl⟩ := Prod.mk.inj heq
    have hskip {front : List Lexeme} (hfront : ls₀ = front ++ l :: ls') :
        ∃ before s' after p q, s :: ss = (s :: before) ++ s' :: after ∧
          settleAll n pending (s :: before) = some (emit n (n + s.text.length) k front, p) ∧
          settle p s'.piece = some (some l.kind, q) ∧ l.start = n + (textOf (s :: before)).length ∧
          l.stop = l.start + s'.text.length ∧ settleAll l.stop q after = some (ls', left₀) := by
      subst hfront
      obtain ⟨before, s', after, p, q, rfl, hbefore, hs', hstart, hstop, hafter⟩ := ih hrest
      refine ⟨before, s', after, p, q, rfl, ?_, hs', ?_, hstop, hafter⟩
      · rw [settleAll, hsettle, Option.bind_some, hbefore]
        rfl
      · rw [hstart, length_textOf_cons, Nat.add_assoc]
    cases k with
    | none =>
      obtain ⟨before, s', after, p, q, hss, hbefore, hrest⟩ := hskip hls
      exact ⟨s :: before, s', after, p, q, hss, hbefore, hrest⟩
    | some k =>
      cases ls with
      | nil =>
        obtain ⟨rfl, rfl⟩ := List.cons.inj hls
        exact ⟨[], s, ss, pending, next, rfl, rfl, hsettle, rfl, rfl, hrest⟩
      | cons l' front =>
        obtain ⟨hhead, htail⟩ := List.cons.inj hls
        subst hhead
        obtain ⟨before, s', after, p, q, hss, hbefore, hrest⟩ := hskip htail
        exact ⟨s :: before, s', after, p, q, hss, hbefore, hrest⟩

end

theorem Settled.stays {p q : List Char} {piece : Piece} {k : LexemeKind}
    (h : Settled p piece (some k) q) (hk : shift p k = some p) : q = p := by
  generalize hk' : some k = k' at h
  cases h with
  | blank | line => cases hk'
  | newline => rfl
  | lexeme hshift =>
    cases hk'
    exact Option.some.inj (hshift.symm.trans hk)

theorem pending_of_nothing {n : Nat} {p left : List Char} {ss : List Snip}
    (h : settleAll n p ss = some ([], left)) : p = left :=
  Option.some.inj (foldlM_of_settleAll h)

section

variable {n : Nat} {p : List Char} {ss : List Snip} {ls : List Lexeme}

theorem settleAll_known {text : List Char} {known : List Snip} (hknown : Cut text known [])
    (h : Cut text ss []) (hall : settleAll n p ss = some (ls, [])) :
    settleAll n p known = some (ls, []) := by
  obtain ⟨more, rfl, hmore⟩ := hknown.unique h
  cases hmore
  rwa [List.append_nil] at hall

def lineSnips : List Snip :=
  [⟨['\n'], .newline⟩, ⟨[' '], .blank⟩, ⟨[' '], .blank⟩, ⟨[' '], .blank⟩, ⟨[' '], .blank⟩,
    ⟨"pass".toList, .lexeme (.name "pass")⟩]

theorem cut_line : Cut "\n    pass".toList lineSnips [] := by
  refine .snip (r := []) rfl rfl (.snip (r := []) rfl rfl (.snip (r := []) rfl rfl
    (.snip (r := []) rfl rfl (.snip (r := []) rfl rfl
      (.snip (r := ['a', 's', 's']) rfl rfl (.done []))))))

theorem cut_colon : Cut ":\n    pass".toList (⟨[':'], .lexeme (.symbol ":")⟩ :: lineSnips) [] :=
  .snip (r := []) rfl rfl cut_line

theorem cut_in : Cut " in _:\n    pass".toList
    (⟨[' '], .blank⟩ :: ⟨['i', 'n'], .lexeme (.name "in")⟩ :: ⟨[' '], .blank⟩ ::
      ⟨['_'], .lexeme (.name "_")⟩ :: ⟨[':'], .lexeme (.symbol ":")⟩ :: lineSnips) [] :=
  .snip (r := []) rfl rfl (.snip (r := ['n']) rfl rfl (.snip (r := []) rfl rfl
    (.snip (r := []) rfl rfl cut_colon)))

theorem kinds_of_line (h : settleAll n p lineSnips = some (ls, [])) :
    p = [] ∧ ls.map (·.kind) = [.newline, .name "pass"] := by
  cases p with
  | nil =>
    cases h
    exact ⟨rfl, rfl⟩
  | cons c p => cases h

theorem settleAll_plain {s : Snip} {k : LexemeKind} (hs : settle p s.piece = some (some k, p))
    (h : settleAll n p (s :: ss) = some (ls, [])) :
    ∃ ls', settleAll (n + s.text.length) p ss = some (ls', []) ∧
      ls.map (·.kind) = k :: ls'.map (·.kind) := by
  rw [settleAll, hs, Option.bind_some] at h
  obtain ⟨⟨ls', left⟩, hrest, heq⟩ := Option.map_eq_some_iff.mp h
  cases heq
  exact ⟨ls', hrest, rfl⟩

theorem settleAll_blank {s : Snip} (hs : s.piece = .blank)
    (h : settleAll n p (s :: ss) = some (ls, [])) :
    settleAll (n + s.text.length) p ss = some (ls, []) := by
  rw [settleAll, hs] at h
  obtain ⟨⟨ls', left⟩, hrest, heq⟩ := Option.map_eq_some_iff.mp h
  cases heq
  exact hrest

theorem kinds_of_colon {text : List Char}
    (h : settleAll n p (⟨text, .lexeme (.symbol ":")⟩ :: lineSnips) = some (ls, [])) :
    p = [] ∧ ls.map (·.kind) = [.symbol ":", .newline, .name "pass"] := by
  obtain ⟨ls', hrest, hkinds⟩ := settleAll_plain rfl h
  obtain ⟨hp, hline⟩ := kinds_of_line hrest
  exact ⟨hp, by rw [hkinds, hline]⟩

theorem kinds_of_in (h : settleAll n p (⟨[' '], .blank⟩ :: ⟨['i', 'n'], .lexeme (.name "in")⟩ ::
      ⟨[' '], .blank⟩ :: ⟨['_'], .lexeme (.name "_")⟩ :: ⟨[':'], .lexeme (.symbol ":")⟩ ::
        lineSnips) = some (ls, [])) :
    p = [] ∧ ls.map (·.kind) =
      [.name "in", .name "_", .symbol ":", .newline, .name "pass"] := by
  obtain ⟨ls₁, h, hkinds₁⟩ := settleAll_plain rfl (settleAll_blank rfl h)
  obtain ⟨ls₂, h, hkinds₂⟩ := settleAll_plain rfl (settleAll_blank rfl h)
  obtain ⟨hp, hkinds⟩ := kinds_of_colon h
  exact ⟨hp, by rw [hkinds₁, hkinds₂, hkinds]⟩

end

/-- The lexemes of a frame whose first line is cut into known pieces. -/
theorem kinds_of_frame {text : List Char} {pieces : List Snip} {ls : List Lexeme}
    (hcut : Cut text (pieces ++ lineSnips) []) (hline : ∀ s ∈ pieces, s.piece ≠ .newline)
    (hreturn : '\r' ∉ text) (h : lexemes? text = some ls) :
    ls.map (·.kind) = kindsOf pieces ++ [.newline, .name "pass"] := by
  obtain ⟨ss, ls', hss, hall, hkinds, -⟩ := cut_of_lexemes? h
  rw [plain_eq hreturn] at hss
  obtain ⟨front, p, back, hfront, hback, rfl⟩ := settleAll_split (settleAll_known hcut hss hall)
  obtain ⟨-, hbackKinds⟩ := kinds_of_line hback
  rw [← hkinds, List.map_append, kinds_of_settleAll hline hfront, hbackKinds]

/-- The lexemes of a text in a frame: those of the text up to the end of the frame, or those in
front of a comment that hides the end of the first line. -/
inductive Framed (x y : List Char) (end_ : List LexemeKind) (ls : List Lexeme) : Prop
  | whole {l : Lexeme} {front back : List Lexeme} {before : List Snip}
      (hls : ls = l :: (front ++ back)) (hl : l.kind = .name "for")
      (hback : back.map (·.kind) = end_) (hbefore : Cut (x ++ y) before y)
      (hfront : settleAll 4 [] before = some (front, []))
  | comment {l : Lexeme} {front back : List Lexeme} {before : List Snip} {x' hidden : List Char}
      (hls : ls = l :: (front ++ back)) (hl : l.kind = .name "for")
      (hback : back.map (·.kind) = [.newline, .name "pass"]) (hx : x = x' ++ '#' :: hidden)
      (hbefore : Cut (x ++ y) before ('#' :: hidden ++ y))
      (hfront : settleAll 4 [] before = some (front, []))

def forSnips : List Snip := [⟨"for".toList, .lexeme (.name "for")⟩, ⟨[' '], .blank⟩]

theorem cut_forSnips (z : List Char) : Cut ("for ".toList ++ z) forSnips z :=
  .snip (r := ['o', 'r']) rfl rfl (.snip (r := []) rfl rfl (.done z))

theorem framed {x y : List Char} {known : List Snip} {end_ : List LexemeKind} {ls : List Lexeme}
    (hx : '\n' ∉ x) (hreturn : '\r' ∉ x ++ y) (hy : Seam y) (hknown : Cut y known [])
    (hline : y.dropWhile (· ≠ '\n') = "\n    pass".toList)
    (hend : ∀ n p ls, settleAll n p known = some (ls, []) → p = [] ∧ ls.map (·.kind) = end_)
    (h : lexemes? ("for ".toList ++ (x ++ y)) = some ls) : Framed x y end_ ls := by
  have hreturn' : '\r' ∉ "for ".toList ++ (x ++ y) := by
    rw [List.mem_append, not_or]
    exact ⟨by decide, hreturn⟩
  obtain ⟨ss, ls', hcut, hall, -, hsame⟩ := cut_of_lexemes? h
  obtain rfl := hsame hreturn'
  rw [plain_eq hreturn'] at hcut
  obtain ⟨ss, rfl, hrest⟩ := (cut_forSnips _).unique hcut
  obtain ⟨k, next, ls₁, hsettled, hall, rfl⟩ := settleAll_cons hall
  cases hsettled with
  | lexeme hshift =>
  cases hshift
  have hall : settleAll 4 [] ss = some (ls₁, []) := settleAll_blank rfl hall
  cases hrest.seam hx hy with
  | whole hss hbefore hafter =>
    subst hss
    obtain ⟨front, p, back, hfront, hback, rfl⟩ := settleAll_split hall
    obtain ⟨rfl, hkinds⟩ := hend _ _ _ (settleAll_known hknown hafter hback)
    exact .whole rfl rfl hkinds hbefore hfront
  | comment hx' hss hs hbefore hafter =>
    subst hss
    obtain ⟨front, p, back, hfront, hback, rfl⟩ := settleAll_split hall
    rw [hline] at hafter
    obtain ⟨rfl, hkinds⟩ :=
      kinds_of_line (settleAll_known cut_line hafter (settleAll_blank hs hback))
    exact .comment rfl rfl hkinds hx' hbefore hfront

theorem quotes_of_all {y : List Char} (h : y.all (fun c => !isQuote c) = true) :
    ∀ c ∈ y, isQuote c = false := by
  intro c hc
  simpa using List.all_eq_true.mp h c hc

theorem framed_colon {x : List Char} {ls : List Lexeme} (hx : '\n' ∉ x) (hreturn : '\r' ∉ x)
    (h : lexemes? ("for ".toList ++ (x ++ ":\n    pass".toList)) = some ls) :
    Framed x ":\n    pass".toList [.symbol ":", .newline, .name "pass"] ls := by
  refine framed hx ?_ ⟨⟨':', rfl, .inr rfl⟩, quotes_of_all (by decide)⟩ cut_colon rfl (fun _ _ _ => kinds_of_colon) h
  rw [List.mem_append, not_or]
  exact ⟨hreturn, by decide⟩

theorem framed_in {x : List Char} {ls : List Lexeme} (hx : '\n' ∉ x) (hreturn : '\r' ∉ x)
    (h : lexemes? ("for ".toList ++ (x ++ " in _".toList ++ ":\n    pass".toList)) = some ls) :
    Framed x " in _:\n    pass".toList
      [.name "in", .name "_", .symbol ":", .newline, .name "pass"] ls := by
  have htext : x ++ " in _".toList ++ ":\n    pass".toList = x ++ " in _:\n    pass".toList := by
    simp
  rw [htext] at h
  refine framed hx ?_ ⟨⟨' ', rfl, .inl rfl⟩, quotes_of_all (by decide)⟩ cut_in rfl (fun _ _ _ => kinds_of_in) h
  rw [List.mem_append, not_or]
  exact ⟨hreturn, by decide⟩

theorem null_of_lexemes {text : List Char} {ls : List Lexeme} (h : lexemes? text = some ls) :
    Char.ofNat 0 ∉ text := by
  unfold lexemes? at h
  split at h
  · cases h
  · rename_i hnull
    exact fun hmem => hnull (List.contains_iff_mem.mpr hmem)

/-- What stands in front of a place between two pieces has its own lexemes. -/
theorem lexemes_of_front {x y : List Char} {before : List Snip} {front : List Lexeme} {n : Nat}
    (hcut : Cut (x ++ y) before y) (hfront : settleAll n [] before = some (front, []))
    (hline : '\n' ∉ x) (hreturn : '\r' ∉ x) (hnull : Char.ofNat 0 ∉ x) :
    ∃ ls, lexemes? x = some ls ∧ ls.map (·.kind) = front.map (·.kind) := by
  have halone := hcut.before (show Inert [] from nofun) (fun _ _ => .inl rfl) fun _ => hline
  rw [List.append_nil] at halone
  exact lexemes?_of_cut hnull (by rwa [plain_eq hreturn]) hfront

/-- A word or a symbol is the text that it was read from. -/
theorem text_of_piece {c : Char} {cs read rest : List Char} {k : LexemeKind} {w : String}
    (h : piece? c cs = some (.lexeme k, rest)) (hread : cs = read ++ rest)
    (hw : k = .name w ∨ k = .symbol w) : c :: read = w.toList := by
  cases pieced h with
  | literal | number => rcases hw with hw | hw <;> cases hw
  | name hcs =>
    obtain hw := hw.resolve_right nofun
    cases hw
    rw [String.toList_ofList, List.append_cancel_right (hread.symm.trans hcs)]
  | symbol hcs =>
    obtain hw := hw.resolve_left nofun
    cases hw
    rw [String.toList_ofList, List.append_cancel_right (hread.symm.trans hcs)]

/-- In front of a lexeme stands the text of the lexemes in front of it. -/
theorem text_at {x y : List Char} {before : List Snip} {A B : List Lexeme} {l : Lexeme} {n : Nat}
    {left : List Char} (hcut : Cut (x ++ y) before y)
    (hfront : settleAll n [] before = some (A ++ l :: B, left)) :
    ∃ (x₁ x₂ : List Char) (b₁ : List Snip) (s : Snip) (b₂ : List Snip) (p q : List Char),
      x = x₁ ++ (s.text ++ x₂) ∧
      Cut (x₁ ++ (s.text ++ x₂ ++ y)) b₁ (s.text ++ x₂ ++ y) ∧
      settleAll n [] b₁ = some (A, p) ∧ Settled p s.piece (some l.kind) q ∧
      (∀ w, l.kind = .name w ∨ l.kind = .symbol w → s.text = w.toList) ∧
      Cut (x₂ ++ y) b₂ y ∧ settleAll l.stop q b₂ = some (B, left) := by
  obtain ⟨b₁, s, b₂, p, q, rfl, hb₁, hs, -, -, hb₂⟩ := settleAll_at hfront
  replace hs := settled hs
  obtain ⟨r, hcut₁, hcut₂⟩ := hcut.split
  cases hcut₂ with
  | @snip c cs read rest _ piece _ hpiece hread hcut₂ =>
    have hrest := hcut₂.text_eq
    subst hrest
    have hx : x = textOf b₁ ++ (c :: read ++ textOf b₂) := by
      have htext := hcut₁.text_eq
      rw [hread, ← List.cons_append, ← List.append_assoc (c :: read), ← List.append_assoc] at htext
      exact List.append_cancel_right htext
    refine ⟨textOf b₁, textOf b₂, b₁, ⟨c :: read, piece⟩, b₂, p, q, hx, ?_, hb₁, hs, ?_, hcut₂, hb₂⟩
    · have htext : x ++ y = textOf b₁ ++ (c :: read ++ textOf b₂ ++ y) := by
        rw [hx, List.append_assoc]
      have hafter : c :: cs = c :: read ++ textOf b₂ ++ y := by
        rw [hread, List.append_assoc, List.cons_append]
      rw [← htext, ← hafter]
      exact hcut₁
    · intro w hw
      dsimp only at hs
      generalize hk : some l.kind = k at hs
      cases hs with
      | blank | line => cases hk
      | newline =>
        rw [Option.some.inj hk] at hw
        rcases hw with hw | hw <;> cases hw
      | lexeme =>
        rw [Option.some.inj hk] at hw
        exact text_of_piece hpiece hread hw

/-- The pieces that some lexemes in a row were read from, from the first of them to the last. -/
theorem pieces_between {n : Nat} {pending left : List Char} {ss : List Snip} {A M B : List Lexeme}
    {first last : Lexeme} (hfirst : M.head? = some first) (hlast : M.getLast? = some last)
    (h : settleAll n pending ss = some (A ++ (M ++ B), left)) :
    ∃ (before mid after : List Snip) (p q : List Char), ss = before ++ (mid ++ after) ∧
      first.start = n + (textOf before).length ∧
      last.stop = n + (textOf before).length + (textOf mid).length ∧
      settleAll first.start p mid = some (M, q) := by
  obtain ⟨M', rfl⟩ : ∃ M', M = M' ++ [last] := List.getLast?_eq_some_iff.mp hlast
  rw [List.append_assoc, ← List.append_assoc, List.singleton_append] at h
  obtain ⟨upto, s, after, p, q, rfl, hupto, hs, hstart, hstop, -⟩ := settleAll_at h
  have hsnip : settleAll (n + (textOf upto).length) p [s] = some ([last], q) := by
    rw [settleAll, hs, ← hstart, ← hstop]
    rfl
  have hall : settleAll n pending (upto ++ [s]) = some (A ++ (M' ++ [last]), q) := by
    rw [settleAll_append hupto, hsnip, Option.map_some, List.append_assoc]
  obtain ⟨tail, htail⟩ : ∃ tail, M' ++ [last] = first :: tail := List.head?_eq_some_iff.mp hfirst
  rw [htail] at hall ⊢
  obtain ⟨before, s', after', p', q', hsplit, hbefore, hs', hstart', hstop', hafter'⟩ := settleAll_at hall
  refine ⟨before, s' :: after', after, p', q, ?_, hstart', ?_, ?_⟩
  · rw [← List.append_assoc, ← hsplit, List.append_assoc, List.singleton_append]
  · have hlength := congrArg (fun ss => (textOf ss).length) hsplit
    simp only [textOf_append, List.length_append, textOf, List.length_nil] at hlength ⊢
    omega
  · rw [settleAll, hs', Option.bind_some, ← hstop', hafter']
    rfl

/-- What is no lexeme: a blank, a comment up to the end of its line, or a line that is continued. -/
theorem blank_of_piece {c : Char} {cs rest : List Char} (h : piece? c cs = some (.blank, rest)) :
    c ∈ [' ', '\t', '\x0c'] ∧ rest = cs ∨ c = '#' ∧ rest = cs.dropWhile (· ≠ '\n') ∨
      c = '\\' ∧ cs = '\n' :: rest := by
  cases pieced h with
  | skip hc => exact .inl ⟨hc, rfl⟩
  | comment hc => exact .inr (.inl ⟨hc, rfl⟩)
  | escape hc hcs => exact .inr (.inr ⟨hc, hcs⟩)

theorem newline_of_piece {c : Char} {cs rest : List Char} (h : piece? c cs = some (.newline, rest)) :
    c = '\n' ∧ rest = cs := by
  cases pieced h with
  | newline hc => exact ⟨hc, rfl⟩

theorem piece_ne_newline {text after : List Char} {ss : List Snip} (h : Cut text ss after)
    (hline : '\n' ∉ textOf ss) : ∀ s ∈ ss, s.piece ≠ .newline := by
  induction h with
  | done => exact nofun
  | snip hpiece _ _ ih =>
    rw [textOf, List.mem_append, not_or, List.mem_cons, not_or] at hline
    refine List.forall_mem_cons.mpr ⟨?_, ih hline.2⟩
    rintro rfl
    exact hline.1.1 (newline_of_piece hpiece).1.symm

/-- A line that has no lexeme up to a comment is blank up to it. -/
theorem blank_line {x y left : List Char} {ss : List Snip} {n : Nat} (hx : '\n' ∉ x)
    (hy : y.head? = some '#') (hcut : Cut (x ++ y) ss y)
    (hall : settleAll n [] ss = some ([], left)) : ∀ c ∈ x, c ∈ [' ', '\t', '\x0c'] := by
  obtain ⟨y, rfl⟩ := List.head?_eq_some_iff.mp hy
  induction ss generalizing x n with
  | nil =>
    obtain rfl : x = [] := List.append_cancel_right (hcut.text_eq : x ++ _ = [] ++ _)
    exact nofun
  | cons s ss ih =>
    cases x with
    | nil => exact nofun
    | cons c x =>
      rw [List.mem_cons, not_or] at hx
      cases hcut with
      | @snip _ _ read rest _ p _ hpiece hread hcut =>
        obtain ⟨z, rfl⟩ : ∃ z, rest = z ++ '#' :: y := ⟨_, hcut.text_eq⟩
        have hxz : x = read ++ z := by
          rw [← List.append_assoc] at hread
          exact List.append_cancel_right hread
        obtain ⟨k, next, ls, hsettled, hrest, hls⟩ := settleAll_cons hall
        cases hsettled with
        | lexeme | newline => cases hls
        | line hnil => exact absurd rfl hnil
        | blank =>
          obtain rfl : ls = [] := hls.symm
          rcases blank_of_piece hpiece with ⟨hc, heq⟩ | ⟨-, heq⟩ | ⟨-, heq⟩
          · obtain rfl : z = x := List.append_cancel_right heq
            exact List.forall_mem_cons.mpr ⟨hc, ih hx.2 hrest hcut⟩
          · have hhead := List.head?_dropWhile_not (· ≠ '\n') (x ++ '#' :: y)
            rw [show x ++ '#' :: y = x.append ('#' :: y) from rfl, ← heq] at hhead
            cases z with
            | nil => cases hhead
            | cons d z =>
              have hd : d = '\n' := by simpa using hhead
              exact absurd (by rw [hxz, hd]; simp) hx.2
          · cases x with
            | nil => cases (List.cons.inj heq).1
            | cons d x => exact absurd ((List.cons.inj heq).1 ▸ List.mem_cons_self) hx.2

end Stencil.Grammar
