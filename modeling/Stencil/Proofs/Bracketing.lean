import Stencil.Proofs.LocalReading
import Stencil.Proofs.Scanning

/-!
# Brackets in texts

The lexemes of a text close the brackets that they open, and there are no more of them than the text
has characters. Pieces that close their own brackets give the same lexemes inside of others, where
line ends count as blanks.
-/

namespace Stencil.Grammar

open Stencil.Expr

theorem shift_of_track {s pending next : List Char} (h : track s pending = some next) :
    shift pending (.symbol (String.ofList s)) = some next := by
  have hopened {c : Char} (h : (if pending.length < deepestNesting then some (c :: pending)
      else none) = some next) : some (c :: pending) = some next := by
    split at h
    · exact h
    · cases h
  unfold track at h
  split at h
  · exact hopened h
  · exact hopened h
  · exact hopened h
  · exact h
  · exact h
  · exact h
  · rw [plain_symbol]
    · exact h
    · have hne {t : List Char} (hs : s ≠ t) : String.ofList s ≠ String.ofList t :=
        fun heq => hs (String.ofList_injective heq)
      rename_i h₁ h₂ h₃ h₄ h₅ h₆
      simp only [List.mem_cons, List.not_mem_nil, or_false, not_or]
      exact ⟨hne h₁, hne h₂, hne h₃, hne h₄, hne h₅, hne h₆⟩

/-- Brackets that are to be closed behind others play no part. -/
theorem shift_append {p q : List Char} {k : LexemeKind} (h : shift p k = some q) (r : List Char) :
    shift (p ++ r) k = some (q ++ r) := by
  have hclosed {c : Char} (h : (if p.head? = some c then some p.tail else none) = some q) :
      (if (p ++ r).head? = some c then some (p ++ r).tail else none) = some (q ++ r) := by
    split at h
    · rename_i hhead
      cases h
      obtain ⟨t, rfl⟩ := List.head?_eq_some_iff.mp hhead
      exact if_pos rfl
    · cases h
  unfold shift at h ⊢
  split at h
  · cases h
    rfl
  · cases h
    rfl
  · cases h
    rfl
  · exact hclosed h
  · exact hclosed h
  · exact hclosed h
  · cases h
    rfl

def kindsOfPiece : Piece → List LexemeKind
  | .lexeme k => [k]
  | _ => []

def kindsOf : List Snip → List LexemeKind
  | [] => []
  | s :: ss => kindsOfPiece s.piece ++ kindsOf ss

@[simp] theorem kindsOf_append (ss ss' : List Snip) : kindsOf (ss ++ ss') = kindsOf ss ++ kindsOf ss' := by
  induction ss with
  | nil => rfl
  | cons s ss ih => rw [List.cons_append, kindsOf, kindsOf, ih, List.append_assoc]

theorem mem_kindsOf {s : Snip} {ss : List Snip} {k : LexemeKind} (hs : s ∈ ss)
    (hk : s.piece = .lexeme k) : k ∈ kindsOf ss := by
  obtain ⟨before, after, rfl⟩ := List.append_of_mem hs
  rw [kindsOf_append, kindsOf, hk]
  exact List.mem_append_right _ List.mem_cons_self

inductive Settled (pending : List Char) : Piece → Option LexemeKind → List Char → Prop
  | blank : Settled pending .blank none pending
  | newline (h : pending = []) : Settled pending .newline (some .newline) pending
  | line (h : pending ≠ []) : Settled pending .newline none pending
  | lexeme {k : LexemeKind} {next : List Char} (h : shift pending k = some next) :
      Settled pending (.lexeme k) (some k) next

theorem settled {pending next : List Char} {p : Piece} {k : Option LexemeKind}
    (h : settle pending p = some (k, next)) : Settled pending p k next := by
  unfold settle at h
  split at h
  · cases h
    exact .blank
  · cases h
    split
    · rename_i hpending
      exact .newline (List.isEmpty_iff.mp hpending)
    · rename_i hpending
      exact .line fun hnil => hpending (List.isEmpty_iff.mpr hnil)
  · obtain ⟨next, htrack, heq⟩ := Option.map_eq_some_iff.mp h
    cases heq
    refine .lexeme ?_
    rw [← shift_of_track htrack, String.ofList_toList]
  · rename_i k hsymbol
    cases h
    refine .lexeme ?_
    cases k with
    | symbol s => exact absurd rfl (hsymbol s)
    | _ => rfl

theorem settleAll_cons {n : Nat} {pending left : List Char} {s : Snip} {ss : List Snip}
    {ls : List Lexeme} (h : settleAll n pending (s :: ss) = some (ls, left)) :
    ∃ k next ls', Settled pending s.piece k next ∧
      settleAll (n + s.text.length) next ss = some (ls', left) ∧
      ls = emit n (n + s.text.length) k ls' := by
  rw [settleAll] at h
  obtain ⟨⟨k, next⟩, hsettle, h⟩ := Option.bind_eq_some_iff.mp h
  obtain ⟨⟨ls', left⟩, hrest, heq⟩ := Option.map_eq_some_iff.mp h
  cases heq
  exact ⟨k, next, ls', settled hsettle, hrest, rfl⟩

section

variable {n : Nat} {pending left : List Char} {ss : List Snip} {ls : List Lexeme}

theorem foldlM_of_settleAll (h : settleAll n pending ss = some (ls, left)) :
    (ls.map (·.kind)).foldlM shift pending = some left := by
  induction ss generalizing n pending ls with
  | nil =>
    cases h
    rfl
  | cons s ss ih =>
    obtain ⟨k, next, ls', hsettled, hrest, rfl⟩ := settleAll_cons h
    specialize ih hrest
    generalize s.piece = p at hsettled
    cases hsettled with
    | blank | line | newline => exact ih
    | lexeme hshift =>
      rw [emit, List.map_cons, List.foldlM_cons, hshift]
      exact ih

theorem load_of_settleAll {text after : List Char} (hcut : Cut text ss after)
    (h : settleAll n pending ss = some (ls, left)) :
    load (ls.map (·.kind)) ≤ (textOf ss).length := by
  induction hcut generalizing n pending ls with
  | done =>
    cases h
    exact Nat.le_refl _
  | @snip c cs read rest after p ss hpiece hread hcut ih =>
    obtain ⟨k, next, ls', hsettled, hrest, rfl⟩ := settleAll_cons h
    specialize ih hrest
    rw [textOf, List.length_append]
    cases hsettled with
    | blank | line =>
      rw [emit]
      omega
    | newline =>
      rw [emit, List.map_cons, load, List.length_cons, weight]
      · omega
      · rintro _ _ ⟨⟩
    | @lexeme k next hshift =>
      obtain ⟨read', hread', hbody, -⟩ := piece?_exact hpiece
      cases List.append_cancel_right (hread'.symm.trans hread)
      rw [emit, List.map_cons, load, List.length_cons]
      cases k with
      | string style body =>
        have hle := hbody style body rfl
        rw [weight]
        omega
      | _ =>
        rw [weight]
        · omega
        · rintro _ _ ⟨⟩

/-- No lexeme among the pieces gets lost. -/
theorem mem_of_settleAll {k : LexemeKind} (hk : k ∈ kindsOf ss)
    (h : settleAll n pending ss = some (ls, left)) : k ∈ ls.map (·.kind) := by
  induction ss generalizing n pending ls with
  | nil => cases hk
  | cons s ss ih =>
    obtain ⟨k', next, ls', hsettled, hrest, rfl⟩ := settleAll_cons h
    rw [kindsOf, List.mem_append] at hk
    have hlater : k ∈ kindsOf ss → k ∈ (emit n (n + s.text.length) k' ls').map (·.kind) := fun hmem => by
      have hrest' := ih hmem hrest
      cases k' with
      | none => exact hrest'
      | some k' => exact List.mem_cons_of_mem _ hrest'
    refine hk.elim (fun hmem => ?_) hlater
    generalize s.piece = p at hmem hsettled
    cases hsettled with
    | blank | line | newline => cases hmem
    | lexeme =>
      rw [List.mem_singleton.mp hmem]
      exact List.mem_cons_self

/-- Without line ends the pieces give the lexemes that they are. -/
theorem kinds_of_settleAll (hline : ∀ s ∈ ss, s.piece ≠ .newline)
    (h : settleAll n pending ss = some (ls, left)) : ls.map (·.kind) = kindsOf ss := by
  induction ss generalizing n pending ls with
  | nil =>
    cases h
    rfl
  | cons s ss ih =>
    obtain ⟨k, next, ls', hsettled, hrest, rfl⟩ := settleAll_cons h
    rw [List.forall_mem_cons] at hline
    specialize ih hline.2 hrest
    rw [kindsOf]
    generalize s.piece = p at hline hsettled
    cases hsettled with
    | blank | line => exact ih
    | newline => exact absurd rfl hline.1
    | lexeme => exact congrArg (_ :: ·) ih

/-- Inside of other brackets pieces that keep to their own give the lexemes that they are. -/
theorem settleAll_inside {p q r : List Char} {c : Char}
    (hown : (kindsOf ss).foldlM shift p = some q)
    (h : settleAll n (p ++ c :: r) ss = some (ls, left)) :
    ls.map (·.kind) = kindsOf ss ∧ left = q ++ c :: r := by
  induction ss generalizing n p ls with
  | nil =>
    cases h
    cases hown
    exact ⟨rfl, rfl⟩
  | cons s ss ih =>
    obtain ⟨k, next, ls', hsettled, hrest, rfl⟩ := settleAll_cons h
    rw [kindsOf] at hown ⊢
    generalize s.piece = piece at hown hsettled
    cases hsettled with
    | blank | line => exact ih hown hrest
    | newline hnil => exact absurd hnil (by simp)
    | @lexeme k _ hshift =>
      rw [kindsOfPiece, List.singleton_append, List.foldlM_cons] at hown
      obtain ⟨p', hp', hown⟩ := Option.bind_eq_some_iff.mp hown
      cases (shift_append hp' (c :: r)).symm.trans hshift
      obtain ⟨hkinds, hleft⟩ := ih hown hrest
      exact ⟨congrArg (k :: ·) hkinds, hleft⟩

end

def plain (text : List Char) : List Char := chars (marks 0 text)

theorem plain_eq {text : List Char} (h : '\r' ∉ text) : plain text = text := by
  rw [plain, marks_eq_numbered h, chars_numbered]

theorem cut_of_lexemes? {text : List Char} {ls : List Lexeme} (h : lexemes? text = some ls) :
    ∃ ss ls', Cut (plain text) ss [] ∧ settleAll 0 [] ss = some (ls', []) ∧
      ls'.map (·.kind) = ls.map (·.kind) ∧ ('\r' ∉ text → ls' = ls) := by
  unfold lexemes? at h
  split at h
  · cases h
  · obtain ⟨ss, ls', hcut, hall, hkinds, hsame⟩ := cut_of_lexFrom h 0
    refine ⟨ss, ls', hcut, hall, hkinds, fun hreturn => hsame ?_⟩
    rw [marks_eq_numbered hreturn, chars_numbered]

theorem lexemes?_of_cut {text : List Char} {ss : List Snip} {ls : List Lexeme} {n : Nat}
    (hnull : Char.ofNat 0 ∉ text) (h : Cut (plain text) ss [])
    (hall : settleAll n [] ss = some (ls, [])) :
    ∃ ls', lexemes? text = some ls' ∧ ls'.map (·.kind) = ls.map (·.kind) := by
  have hle := length_marks_le 0 text
  unfold lexemes?
  rw [if_neg fun hmem => hnull (List.contains_iff_mem.mp hmem)]
  exact lexFrom_of_cut h hall (by omega)

/-- All brackets are closed, and there are no more lexemes than characters. -/
theorem lexemes?_open {text : List Char} {ls : List Lexeme} (h : lexemes? text = some ls) :
    Open (ls.map (·.kind)) 0 [] ∧ load (ls.map (·.kind)) ≤ text.length := by
  obtain ⟨ss, ls', hcut, hall, hkinds, -⟩ := cut_of_lexemes? h
  have hload := load_of_settleAll hcut hall
  have htext := congrArg List.length hcut.text_eq
  have hle : (plain text).length ≤ text.length := by
    rw [plain, length_chars]
    exact length_marks_le 0 text
  rw [List.append_nil] at htext
  rw [← hkinds]
  exact ⟨⟨Nat.zero_le _, foldlM_of_settleAll hall⟩, by omega⟩

end Stencil.Grammar
