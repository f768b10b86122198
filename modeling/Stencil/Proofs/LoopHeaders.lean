import Stencil.Proofs.Harmless
import Stencil.Proofs.Headers
import Stencil.Proofs.Rejections

/-!
# What loop headers say

An accepted header says what its loop binds and what it runs over, but for a part at its end that is
hidden: a comment behind a colon, or an `in` behind the target of the form with `as`.
-/

namespace Stencil

open Text (isBlank oneLine)
open Grammar (Hidden Cloaked membership readAll)

namespace Written

/-- The header is one text, `as` between blanks, and another text. -/
structure SplitsAs (header source target : List Char) (blanks blanks' : List Char) : Prop where
  text : header = source ++ (blanks ++ ("as".toList ++ (blanks' ++ target)))
  blanks : blanks ≠ [] ∧ ∀ c ∈ blanks, isBlank c
  blanks' : blanks' ≠ [] ∧ ∀ c ∈ blanks', isBlank c

theorem search_eq_some {before header source target : List Char}
    (h : splitAs?.search before header = some (source, target)) :
    ∃ blanks blanks', SplitsAs (before.reverse ++ header) source target blanks blanks' := by
  have hrun (c : Char) (cs : List Char) : cs = cs.takeWhile isBlank ++ cs.dropWhile isBlank ∧
      (c :: cs.takeWhile isBlank ≠ [] ∧ (isBlank c → ∀ d ∈ c :: cs.takeWhile isBlank, isBlank d)) :=
    ⟨List.takeWhile_append_dropWhile.symm, List.cons_ne_nil _ _, fun hc =>
      List.forall_mem_cons.mpr ⟨hc, fun d hd => List.mem_takeWhile_imp hd⟩⟩
  induction header generalizing before with
  | nil => cases h
  | cons c cs ih =>
    rw [splitAs?.search] at h
    split at h
    · rename_i found hfound
      cases h
      obtain ⟨blanks, blanks', hsplit⟩ := ih hfound
      rw [List.reverse_cons, List.append_assoc, List.singleton_append] at hsplit
      exact ⟨blanks, blanks', hsplit⟩
    · split at h
      · rename_i hblank
        rw [Bool.and_eq_true] at hblank
        obtain ⟨hcs, hne, hall⟩ := hrun c cs
        split at h
        · rename_i d rest has
          rw [has] at hcs
          split at h
          · rename_i hd
            obtain ⟨hrest, hne', hall'⟩ := hrun d rest
            split at h
            · cases h
            · cases h
              refine ⟨_, _, ?_, ⟨hne, hall hblank.1⟩, hne', hall' hd⟩
              conv_lhs => rw [hcs, hrest]
              simp
          · cases h
        · cases h
      · cases h

/-- A header says that its loop binds `target` and runs over `source`. -/
inductive Says (header : List Char) (target source : Expr) : Prop
  | membership {x dropped : List Char} (htext : oneLine header = x ++ dropped)
      (hdropped : Hidden dropped)
      (hread : (readAll x membership).map (fun r => (r.1.expr, r.2.expr)) = some (target, source))
  | naming {e t blanks blanks' x dropped : List Char} (hheader : SplitsAs header e t blanks blanks')
      (hsource : Expr.read? e = some source) (htext : oneLine t = x ++ dropped)
      (hdropped : Cloaked dropped)
      (htarget : (readAll x fun parse => parse .targets).map (·.expr) = some target)

theorem isBlank_of_isLineEnd {c : Char} (h : Text.isLineEnd c) : isBlank c := by
  unfold Text.isLineEnd at h
  unfold isBlank
  simp only [Bool.or_eq_true, Bool.and_eq_true, decide_eq_true_eq] at h ⊢
  omega

theorem not_isBlank_of_stripped (s : String) :
    (∀ c ∈ s.stripBlanks.toList.head?, ¬ isBlank c) ∧ ∀ c ∈ s.stripBlanks.toList.getLast?, ¬ isBlank c := by
  rw [String.stripBlanks, String.toList_ofList, Text.strip, Text.dropEndWhile]
  constructor
  · intro c hc
    obtain ⟨rest, hrest⟩ := List.head?_eq_some_iff.mp hc
    have hsuffix : (s.toList.dropWhile isBlank).reverse.dropWhile isBlank <:+ _ :=
      List.dropWhile_suffix isBlank
    rw [← List.reverse_prefix, hrest, List.reverse_reverse] at hsuffix
    obtain ⟨more, hmore⟩ := hsuffix
    have hhead := List.head?_dropWhile_not isBlank s.toList
    rw [← hmore] at hhead
    simpa using hhead
  · intro c hc
    have hlast := List.head?_dropWhile_not isBlank (s.toList.dropWhile isBlank).reverse
    rw [List.getLast?_reverse] at hc
    rw [hc] at hlast
    simpa using hlast

theorem SplitsAs.not_isBlank {text : String} {e t blanks blanks' : List Char} {c : Char}
    (h : SplitsAs text.stripBlanks.toList e t blanks blanks') (hc : c ∈ t.getLast?) : ¬ isBlank c := by
  obtain ⟨t, rfl⟩ := List.getLast?_eq_some_iff.mp hc
  refine (not_isBlank_of_stripped text).2 c ?_
  rw [h.text]
  simp only [← List.append_assoc]
  exact List.getLast?_concat

/-- How an accepted header was read. -/
inductive Reads (header : List Char) (target source : Expr) : Prop
  | membership {h : Expr.LoopHeader} (hheader : Expr.readHeader? header = some h)
      (htarget : h.target.expr = target) (hsource : Expr.read? h.source.text.toList = some source)
  | naming {e t : List Char} {h : Expr.LoopHeader} (hheader : Expr.readHeader? header = none)
      (hsplit : splitAs? header = some (e, t))
      (hnamed : Expr.readHeader? (t ++ " in _".toList) = some h) (htarget : h.target.expr = target)
      (hsource : Expr.read? e = some source)

theorem loopHeader_ok {w : Written} {target source : Code} (h : w.loopHeader = .ok (target, source)) :
    isLoopTarget target.expr ∧ Reads w.arguments.stripBlanks.toList target.expr source.expr := by
  unfold loopHeader at h
  simp only at h
  split at h
  · cases h
  split at h
  · cases h
  rename_i target' text hfound
  split at h
  case isFalse => cases h
  case isTrue htarget =>
  obtain ⟨source', hsource, h⟩ := Tree.Reading.bind_ok h
  cases h
  obtain ⟨hread, -⟩ := expressionOf_harmless hsource
  refine ⟨htarget, ?_⟩
  split at hfound
  · rename_i hd hin
    cases hfound
    exact .membership hin rfl hread
  · rename_i hnone
    obtain ⟨⟨e, t⟩, hsplit, hfound⟩ := Option.bind_eq_some_iff.mp hfound
    obtain ⟨hd, hnamed, hfound⟩ := Option.bind_eq_some_iff.mp hfound
    cases hfound
    rw [String.toList_ofList] at hread
    exact .naming hnone hsplit hnamed rfl hread

/-- An accepted header says what its loop binds and what it runs over, and every other is refused
at the directive. -/
theorem loopHeader_says (w : Written) :
    match w.loopHeader with
    | .ok (target, source) => isLoopTarget target.expr ∧
        Says w.arguments.stripBlanks.toList target.expr source.expr
    | .error r => r.At w.position := by
  cases hheader : w.loopHeader with
  | error r => exact loopHeader_at hheader
  | ok read =>
    obtain ⟨target, source⟩ := read
    obtain ⟨htarget, hreads⟩ := loopHeader_ok hheader
    change isLoopTarget target.expr ∧ _
    refine ⟨htarget, ?_⟩
    cases hreads with
    | membership hin hname hsource =>
      obtain ⟨x, dropped, htext, hdropped, hall⟩ := Grammar.membership_of_header hin hsource
      exact .membership htext hdropped (hname ▸ hall)
    | naming hnone hsplit hnamed hname hsource =>
      obtain ⟨blanks, blanks', hsplits⟩ := search_eq_some hsplit
      rw [List.reverse_nil, List.nil_append] at hsplits
      obtain ⟨x, dropped, htext, hdropped, hall⟩ := Grammar.target_of_header
        (fun c hc hline => hsplits.not_isBlank hc (isBlank_of_isLineEnd hline)) hnamed
      exact .naming hsplits hsource htext hdropped (hname ▸ hall)

/-- A header with a second `in` at its end. -/
def trailing : Written := ⟨⟨1, 0⟩, some (.opening .foreachBlock), "items as x in y"⟩

/-- The header is accepted with the target `x`, but it is no membership, and what stands behind its
`as` is no target. -/
theorem trailing_in_dropped :
    (trailing.loopHeader.toOption.any fun r =>
      match r.1.expr, r.2.expr with
      | .name "x", .name "items" => true
      | _, _ => false) = true ∧
    (Expr.readHeader? "items as x in y".toList).isNone = true ∧
    (readAll "x in y".toList fun parse => parse .targets).isNone = true := by
  refine ⟨?_, ?_, ?_⟩
  · decide +kernel
  · decide +kernel
  · decide +kernel

end Written

end Stencil
