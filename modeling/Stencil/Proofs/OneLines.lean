import Stencil.Proofs.Bracketing
import Stencil.Proofs.LineEnds

/-!
# Texts on one line

A loop header is read with its lines on one line, with blanks in place of its line ends.
-/

namespace Stencil.Text

open Stencil.Grammar (plain)

def oneLine (text : List Char) : List Char := [' '].intercalate (lines text)

def spaced (c : Char) : Char := if isLineEnd c then ' ' else c

theorem spaced_of_not {c : Char} (h : ¬ isLineEnd c) : spaced c = c := if_neg h

theorem spaced_lineEnd {c : Char} (h : isLineEnd c) : spaced c = ' ' := if_pos h

theorem lines_ne_nil {text : List Char} (h : text ≠ []) : lines text ≠ [] := by
  obtain ⟨ls, hls⟩ := lines_head h
  rw [hls]
  exact List.cons_ne_nil _ _

theorem oneLine_nil : oneLine [] = [] := by
  rw [oneLine, lines_nil]
  rfl

theorem oneLine_char {c : Char} (hc : ¬ isLineEnd c) (cs : List Char) :
    oneLine (c :: cs) = c :: oneLine cs := by
  rw [oneLine, lines_char hc]
  cases cs with
  | nil => rfl
  | cons d cs =>
    obtain ⟨ls, hls⟩ := lines_head (List.cons_ne_nil d cs)
    rw [oneLine, hls, List.headD_cons, List.tail_cons]
    cases ls <;> rfl

theorem oneLine_of_lines {text rest : List Char} (hrest : rest ≠ [])
    (h : lines text = [] :: lines rest) : oneLine text = ' ' :: oneLine rest := by
  rw [oneLine, h, List.intercalate_cons_of_ne_nil (lines_ne_nil hrest)]
  rfl

theorem not_lineEnd_of_mem_oneLine {text : List Char} {c : Char} (h : c ∈ oneLine text) :
    ¬ isLineEnd c := by
  have hlines := not_lineEnd_of_mem_lines text
  unfold oneLine at h
  generalize lines text = ls at h hlines
  induction ls with
  | nil => cases h
  | cons l ls ih =>
    rw [List.forall_mem_cons] at hlines
    cases ls with
    | nil => exact hlines.1 c (by simpa [List.intercalate] using h)
    | cons l' ls =>
      rw [List.intercalate_cons_of_ne_nil (List.cons_ne_nil l' ls), List.mem_append,
        List.mem_append, List.mem_singleton] at h
      rcases h with (h | rfl) | h
      · exact hlines.1 c h
      · decide
      · exact ih h hlines.2

theorem newline_not_mem_oneLine (text : List Char) : '\n' ∉ oneLine text :=
  fun h => not_lineEnd_of_mem_oneLine h (by decide)

theorem return_not_mem_oneLine (text : List Char) : '\r' ∉ oneLine text :=
  fun h => not_lineEnd_of_mem_oneLine h (by decide)

theorem chars_marks (n : Nat) (text : List Char) :
    Expr.chars (Expr.marks n text) = plain text := by
  have hplaces (m : Nat) : Expr.chars (Expr.marks n text) = Expr.chars (Expr.marks m text) := by
    induction text using lines.induct generalizing n m with
    | case1 => rfl
    | case2 cs ih => exact congrArg ('\n' :: ·) (ih (n + 2) (m + 2))
    | case3 c cs hcrlf hc ih | case4 c cs hcrlf hc hlines ih | case5 c cs hcrlf hc l' ls hlines ih =>
      rw [Expr.marks, Expr.marks]
      · exact congrArg ((if c = '\r' then '\n' else c) :: ·) (ih (n + 1) (m + 1))
      · exact hcrlf
      · exact hcrlf
  exact hplaces 0

theorem plain_crlf (cs : List Char) : plain ('\r' :: '\n' :: cs) = '\n' :: plain cs := by
  rw [plain, Expr.marks, ← chars_marks 2]
  rfl

theorem plain_cons {c : Char} {cs : List Char} (h : ¬ (c = '\r' ∧ cs.head? = some '\n')) :
    plain (c :: cs) = (if c = '\r' then '\n' else c) :: plain cs := by
  rw [plain, Expr.marks, ← chars_marks 1]
  · rfl
  · rintro cs' rfl rfl
    exact h ⟨rfl, rfl⟩

theorem plain_append {b : List Char} :
    ∀ {a : List Char}, (b.head? = some '\n' → a.getLast? ≠ some '\r') →
      plain (a ++ b) = plain a ++ plain b
  | [], _ => rfl
  | [c], h => by
    have hcrlf : ¬ (c = '\r' ∧ b.head? = some '\n') := fun ⟨hc, hb⟩ => h hb (congrArg some hc)
    rw [List.singleton_append, plain_cons hcrlf, plain_cons (by simp)]
    rfl
  | c :: d :: a, h => by
    by_cases hcrlf : c = '\r' ∧ d = '\n'
    · obtain ⟨rfl, rfl⟩ := hcrlf
      have hnext : b.head? = some '\n' → a.getLast? ≠ some '\r' := fun hb ha => by
        obtain ⟨a, rfl⟩ := List.getLast?_eq_some_iff.mp ha
        exact h hb (List.getLast?_append_of_ne_nil ['\r', '\n'] (List.concat_ne_nil '\r' a) ▸
          List.getLast?_concat)
      rw [List.cons_append, List.cons_append, plain_crlf, plain_append hnext, plain_crlf,
        List.cons_append]
    · have hcrlf' (a : List Char) : ¬ (c = '\r' ∧ (d :: a).head? = some '\n') := fun ⟨hc, hd⟩ =>
        hcrlf ⟨hc, Option.some.inj hd⟩
      rw [List.getLast?_cons_cons] at h
      rw [List.cons_append, List.cons_append, plain_cons (hcrlf' _), ← List.cons_append,
        plain_append h, plain_cons (hcrlf' _), List.cons_append]

theorem plain_append_cons {d : Char} (hd : d ≠ '\n') (a b : List Char) :
    plain (a ++ d :: b) = plain a ++ plain (d :: b) :=
  plain_append fun h => absurd (Option.some.inj h) hd

def unreturned (c : Char) : Char := if c = '\r' then '\n' else c

theorem plain_concat (a : List Char) (c : Char) : ∃ a', plain (a ++ [c]) = a' ++ [unreturned c] := by
  by_cases hcrlf : c = '\n' ∧ a.getLast? = some '\r'
  · obtain ⟨rfl, ha⟩ := hcrlf
    obtain ⟨a, rfl⟩ := List.getLast?_eq_some_iff.mp ha
    refine ⟨plain a, ?_⟩
    rw [List.append_assoc, List.singleton_append, plain_append_cons (by decide)]
    rfl
  · refine ⟨plain a, ?_⟩
    rw [plain_append (b := [c]) fun hc ha => hcrlf ⟨Option.some.inj hc, ha⟩, plain_cons (by simp)]
    rfl

theorem plain_head (c : Char) (cs : List Char) : ∃ cs', plain (c :: cs) = unreturned c :: cs' := by
  by_cases hcrlf : c = '\r' ∧ cs.head? = some '\n'
  · obtain ⟨rfl, hcs⟩ := hcrlf
    obtain ⟨cs, rfl⟩ := List.head?_eq_some_iff.mp hcs
    exact ⟨_, plain_crlf cs⟩
  · exact ⟨_, plain_cons hcrlf⟩

theorem mem_plain {c : Char} {text : List Char} (h : c ∈ plain text) : c ∈ text ∨ c = '\n' := by
  induction text using lines.induct with
  | case1 => cases h
  | case2 cs ih =>
    rw [plain_crlf] at h
    rcases List.mem_cons.mp h with rfl | h
    · exact .inr rfl
    · exact (ih h).imp_left fun hc => List.mem_cons_of_mem _ (List.mem_cons_of_mem _ hc)
  | case3 d cs hcrlf hd ih | case4 d cs hcrlf hd hlines ih | case5 d cs hcrlf hd l' ls hlines ih =>
    have hreturn : ¬ (d = '\r' ∧ cs.head? = some '\n') := by
      rintro ⟨hd, hcs⟩
      obtain ⟨cs', rfl⟩ := List.head?_eq_some_iff.mp hcs
      exact hcrlf cs' hd rfl
    rw [plain_cons hreturn] at h
    rcases List.mem_cons.mp h with rfl | h
    · split
      · exact .inr rfl
      · exact .inl List.mem_cons_self
    · exact (ih h).imp_left (List.mem_cons_of_mem d)

/-- Of a text that ends with no line end each line end becomes a blank. -/
theorem oneLine_eq {text : List Char} (h : ∀ c ∈ text.getLast?, ¬ isLineEnd c) :
    oneLine text = (plain text).map spaced := by
  have hne {c : Char} {cs : List Char} (hc : isLineEnd c) (h : ∀ d ∈ (c :: cs).getLast?, ¬ isLineEnd d) :
      cs ≠ [] := by
    rintro rfl
    exact h c rfl hc
  have hlast {c : Char} {cs : List Char} (hcs : cs ≠ []) : (c :: cs).getLast? = cs.getLast? := by
    cases cs with
    | nil => exact absurd rfl hcs
    | cons d cs => exact List.getLast?_cons_cons
  have hchar {c : Char} {cs : List Char} (hc : ¬ isLineEnd c)
      (ih : (∀ d ∈ cs.getLast?, ¬ isLineEnd d) → oneLine cs = (plain cs).map spaced)
      (h : ∀ d ∈ (c :: cs).getLast?, ¬ isLineEnd d) :
      oneLine (c :: cs) = (plain (c :: cs)).map spaced := by
    have hr : c ≠ '\r' := by
      rintro rfl
      exact hc (by decide)
    rw [oneLine_char hc, plain_cons fun h => hr h.1, if_neg hr, List.map_cons, spaced_of_not hc]
    rcases cs with _ | ⟨d, cs⟩
    · rw [oneLine_nil]
      rfl
    · rw [ih (by rwa [hlast (List.cons_ne_nil d cs)] at h)]
  induction text using lines.induct with
  | case1 =>
    rw [oneLine_nil]
    rfl
  | case2 cs ih =>
    have hcs : cs ≠ [] := by
      rintro rfl
      exact h '\n' rfl (by decide)
    rw [hlast (List.cons_ne_nil '\n' cs), hlast hcs] at h
    rw [oneLine_of_lines hcs (lines_crlf cs), plain_crlf, List.map_cons, spaced_lineEnd (by decide),
      ih h]
  | case3 c cs hcrlf hc ih =>
    have hcs := hne hc h
    have hcrlf' : ¬ (c = '\r' ∧ cs.head? = some '\n') := by
      rintro ⟨rfl, hn⟩
      obtain ⟨cs', hcs⟩ := List.head?_eq_some_iff.mp hn
      exact hcrlf cs' rfl hcs
    have hline : isLineEnd (if c = '\r' then '\n' else c) := by
      split
      · decide
      · exact hc
    rw [hlast hcs] at h
    rw [oneLine_of_lines hcs (lines_lineEnd hc hcrlf'), plain_cons hcrlf', List.map_cons,
      spaced_lineEnd hline, ih h]
  | case4 c cs hcrlf hc hlines ih => exact hchar hc ih h
  | case5 c cs hcrlf hc l' ls hlines ih => exact hchar hc ih h

theorem mem_of_mem_oneLine {c : Char} {text : List Char} (hend : ∀ c ∈ text.getLast?, ¬ isLineEnd c)
    (h : c ∈ oneLine text) : c ∈ text ∨ c = ' ' := by
  rw [oneLine_eq hend] at h
  obtain ⟨d, hd, rfl⟩ := List.mem_map.mp h
  by_cases hline : isLineEnd d
  · exact .inr (spaced_lineEnd hline)
  · rw [spaced_of_not hline]
    exact .inl ((mem_plain hd).resolve_right fun heq => hline (heq ▸ isLineEnd_newline))

theorem oneLine_append {a b : List Char} (ha : ∀ c ∈ a.getLast?, ¬ isLineEnd c)
    (hb : ∀ c ∈ (' ' :: b).getLast?, ¬ isLineEnd c) :
    oneLine (a ++ ' ' :: b) = oneLine a ++ oneLine (' ' :: b) := by
  have hlast : ∀ c ∈ (a ++ ' ' :: b).getLast?, ¬ isLineEnd c := by
    rw [List.getLast?_append_of_ne_nil _ (List.cons_ne_nil ' ' b)]
    exact hb
  rw [oneLine_eq hlast, plain_append_cons (by decide), List.map_append, ← oneLine_eq ha,
    ← oneLine_eq hb]

end Stencil.Text
