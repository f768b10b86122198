import Mathlib.Algebra.BigOperators.Group.List.Basic
import Mathlib.Data.List.TakeWhile
import Stencil.Proofs.Spelling

/-!
# Lines of a text

Positions count lines by newlines, and excerpts cut a text at each of its line ends, of which the
newline is one. The two agree on a line if in the lines above newline is the only line end, a
carriage return in front of it apart.
-/

namespace Stencil.Text

theorem isLineEnd_newline : isLineEnd '\n' = true := by decide

def visible (l : List Char) : List Char := l.takeWhile fun c => !isLineEnd c

/-- All of the line can be seen, but for a carriage return at its end. -/
def IsPlain (l : List Char) : Prop := l = visible l ∨ l = visible l ++ ['\r']

instance (l : List Char) : Decidable (IsPlain l) := inferInstanceAs (Decidable (_ ∨ _))

def joined (ls : List (List Char)) : List Char := ls.flatMap (· ++ ['\n'])

@[simp] theorem joined_nil : joined [] = [] := rfl

theorem joined_cons (l : List Char) (ls : List (List Char)) (rest : List Char) :
    joined (l :: ls) ++ rest = l ++ '\n' :: (joined ls ++ rest) := by
  simp [joined]

/-- What stands in front of a position: complete lines, and the beginning of its own. -/
theorem exists_joined (before : List Char) :
    ∃ ls start, before = joined ls ++ start ∧ (∀ l ∈ ls, '\n' ∉ l) ∧ '\n' ∉ start := by
  induction before with
  | nil => exact ⟨[], [], rfl, nofun, nofun⟩
  | cons c before ih =>
    obtain ⟨ls, start, rfl, hls, hstart⟩ := ih
    by_cases hc : c = '\n'
    · subst hc
      exact ⟨[] :: ls, start, rfl, List.forall_mem_cons.mpr ⟨nofun, hls⟩, hstart⟩
    cases ls with
    | nil => exact ⟨[], c :: start, rfl, nofun, List.not_mem_cons_of_ne_of_not_mem (Ne.symm hc) hstart⟩
    | cons l ls =>
      obtain ⟨hl, hls⟩ := List.forall_mem_cons.mp hls
      refine ⟨(c :: l) :: ls, start, ?_, List.forall_mem_cons.mpr ⟨?_, hls⟩, hstart⟩
      · rw [joined_cons, joined_cons, List.cons_append]
      · exact List.not_mem_cons_of_ne_of_not_mem (Ne.symm hc) hl

section

variable {ls : List (List Char)} {start : List Char}

theorem count_joined (hls : ∀ l ∈ ls, '\n' ∉ l) (hstart : '\n' ∉ start) :
    (joined ls ++ start).count '\n' = ls.length := by
  induction ls with
  | nil => exact List.count_eq_zero.mpr hstart
  | cons l ls ih =>
    obtain ⟨hl, hls⟩ := List.forall_mem_cons.mp hls
    rw [joined_cons, List.count_append, List.count_cons_self, ih hls, List.count_eq_zero.mpr hl,
      Nat.zero_add, List.length_cons]

theorem splitOn_joined (hls : ∀ l ∈ ls, '\n' ∉ l) (rest : List Char) :
    (joined ls ++ rest).splitOn '\n' = ls ++ rest.splitOn '\n' := by
  induction ls with
  | nil => rfl
  | cons l ls ih =>
    obtain ⟨hl, hls⟩ := List.forall_mem_cons.mp hls
    rw [joined_cons, List.splitOn_append_cons_self, List.splitOn_eq_singleton hl, ih hls,
      List.singleton_append, List.cons_append]

/-- A position is counted by the complete lines in front of it and the beginning of its own. -/
theorem counted_joined (hls : ∀ l ∈ ls, '\n' ∉ l) (hstart : '\n' ∉ start) :
    Position.counted (joined ls ++ start) = ⟨ls.length + 1, start.length⟩ := by
  have hcolumn : (joined ls ++ start).reverse.takeWhile (· ≠ '\n') = start.reverse := by
    have hall : ∀ c ∈ start.reverse, decide (c ≠ '\n') = true := fun c hc =>
      decide_eq_true fun h => hstart (h ▸ List.mem_reverse.mp hc)
    rw [List.reverse_append, List.takeWhile_append_of_pos hall]
    rcases List.eq_nil_or_concat ls with rfl | ⟨ls, l, rfl⟩
    · simp
    · simp [joined]
  rw [Position.counted, count_joined hls hstart, hcolumn, List.length_reverse]

end

theorem lines_lineEnd {c : Char} (hc : isLineEnd c) {cs : List Char}
    (h : ¬ (c = '\r' ∧ cs.head? = some '\n')) : lines (c :: cs) = [] :: lines cs := by
  rw [lines, if_pos hc]
  rintro cs' rfl rfl
  exact h ⟨rfl, rfl⟩

theorem lines_char {c : Char} (hc : ¬ isLineEnd c) (cs : List Char) :
    lines (c :: cs) = (c :: (lines cs).headD []) :: (lines cs).tail := by
  rw [lines, if_neg hc]
  · cases lines cs <;> rfl
  · rintro cs' rfl rfl
    exact hc (by decide)

theorem lines_crlf (cs : List Char) : lines ('\r' :: '\n' :: cs) = [] :: lines cs := by
  rw [lines]

/-- The first line is what can be seen of the text in front of its first line end. -/
theorem lines_head {text : List Char} (h : text ≠ []) : ∃ ls, lines text = visible text :: ls := by
  induction text with
  | nil => exact absurd rfl h
  | cons c cs ih =>
    by_cases hc : isLineEnd c
    · rw [visible, List.takeWhile_cons_of_neg (by simpa using hc)]
      by_cases hcrlf : c = '\r' ∧ cs.head? = some '\n'
      · obtain ⟨rfl, hn⟩ := hcrlf
        obtain ⟨cs, rfl⟩ := List.head?_eq_some_iff.mp hn
        exact ⟨_, lines_crlf cs⟩
      · exact ⟨_, lines_lineEnd hc hcrlf⟩
    · rw [visible, List.takeWhile_cons_of_pos (by simpa using hc), lines_char hc]
      cases cs with
      | nil => exact ⟨_, rfl⟩
      | cons d cs =>
        obtain ⟨ls, hls⟩ := ih (List.cons_ne_nil d cs)
        rw [hls]
        exact ⟨ls, rfl⟩

theorem not_lineEnd_of_mem_lines (text : List Char) : ∀ l ∈ lines text, ∀ c ∈ l, ¬ isLineEnd c := by
  have hchar {c : Char} {cs : List Char} (hc : ¬ isLineEnd c)
      (ih : ∀ l ∈ lines cs, ∀ c ∈ l, ¬ isLineEnd c) :
      ∀ l ∈ lines (c :: cs), ∀ c ∈ l, ¬ isLineEnd c := by
    rw [lines_char hc]
    refine List.forall_mem_cons.mpr ⟨List.forall_mem_cons.mpr ⟨hc, ?_⟩, fun l hl =>
      ih l (List.mem_of_mem_tail hl)⟩
    cases hcs : lines cs with
    | nil => exact nofun
    | cons l ls => exact ih l (hcs ▸ List.mem_cons_self)
  induction text using lines.induct with
  | case1 => exact nofun
  | case2 cs ih => exact lines_crlf cs ▸ List.forall_mem_cons.mpr ⟨nofun, ih⟩
  | case3 c cs hcrlf hc ih =>
    have hlines : lines (c :: cs) = [] :: lines cs := lines_lineEnd hc fun ⟨hr, hn⟩ => by
      obtain ⟨cs', hcs⟩ := List.head?_eq_some_iff.mp hn
      exact hcrlf cs' hr hcs
    exact hlines ▸ List.forall_mem_cons.mpr ⟨nofun, ih⟩
  | case4 c cs hcrlf hc hlines ih => exact hchar hc ih
  | case5 c cs hcrlf hc l' ls hlines ih => exact hchar hc ih

theorem lines_newline (rest : List Char) :
    ∀ before, lines (before ++ '\n' :: rest) = lines (before ++ ['\n']) ++ lines rest
  | [] => lines_lineEnd isLineEnd_newline (nomatch ·.1)
  | c :: cs => by
    by_cases hc : isLineEnd c
    · by_cases hcrlf : c = '\r' ∧ (cs ++ ['\n']).head? = some '\n'
      · obtain ⟨rfl, hn⟩ := hcrlf
        cases cs with
        | nil => exact lines_crlf rest
        | cons d cs =>
          cases hn
          rw [List.cons_append, List.cons_append, lines_crlf, lines_newline rest cs,
            List.cons_append, List.cons_append, lines_crlf, List.cons_append]
      · have hhead : (cs ++ '\n' :: rest).head? = (cs ++ ['\n']).head? := by cases cs <;> rfl
        rw [List.cons_append, List.cons_append, lines_lineEnd hc hcrlf,
          lines_lineEnd hc (hhead ▸ hcrlf), lines_newline rest cs, List.cons_append]
    · obtain ⟨ls, hls⟩ := lines_head (List.append_ne_nil_of_right_ne_nil cs (List.cons_ne_nil '\n' []))
      rw [List.cons_append, List.cons_append, lines_char hc, lines_char hc, lines_newline rest cs, hls]
      rfl

theorem lines_joined (ls : List (List Char)) (rest : List Char) :
    lines (joined ls ++ rest) = ls.flatMap (fun l => lines (l ++ ['\n'])) ++ lines rest := by
  induction ls with
  | nil => rfl
  | cons l ls ih =>
    rw [joined_cons, lines_newline, ih, List.flatMap_cons, List.append_assoc]

theorem lines_append {v rest : List Char} {ls : List (List Char)} (hv : ∀ c ∈ v, ¬ isLineEnd c)
    (h : lines rest = [] :: ls) : lines (v ++ rest) = v :: ls := by
  induction v with
  | nil => exact h
  | cons c v ih =>
    obtain ⟨hc, hv⟩ := List.forall_mem_cons.mp hv
    rw [List.cons_append, lines_char hc, ih hv]
    rfl

theorem not_lineEnd_of_visible {l : List Char} : ∀ c ∈ visible l, ¬ isLineEnd c := by
  intro c hc
  simpa using List.mem_takeWhile_imp hc

theorem IsPlain.lines {l : List Char} (h : IsPlain l) : lines (l ++ ['\n']) = [visible l] := by
  rcases h with h | h
  · calc
      Text.lines (l ++ ['\n']) = Text.lines (visible l ++ ['\n']) := by rw [← h]
      _ = [visible l] := lines_append not_lineEnd_of_visible rfl
  · calc
      Text.lines (l ++ ['\n']) = Text.lines (visible l ++ ['\r', '\n']) := by
        rw [List.append_cons (visible l), ← h]
      _ = [visible l] := lines_append not_lineEnd_of_visible rfl

variable {ls : List (List Char)} {rest : List Char}

/-- There are more lines than newlines in front of what follows them. -/
theorem length_lines_joined (hrest : rest ≠ []) : ls.length < (lines (joined ls ++ rest)).length := by
  obtain ⟨more, hmore⟩ := lines_head hrest
  have hlong : ls.length ≤ (ls.map fun l => (lines (l ++ ['\n'])).length).sum := by
    conv_lhs => rw [← List.length_map fun l => (lines (l ++ ['\n'])).length]
    refine List.length_le_sum_of_one_le _ fun n hn => ?_
    obtain ⟨l, -, rfl⟩ := List.mem_map.mp hn
    obtain ⟨tail, htail⟩ :=
      lines_head (List.append_ne_nil_of_right_ne_nil l (List.cons_ne_nil '\n' []))
    rw [htail]
    exact Nat.succ_pos _
  rw [lines_joined, List.length_append, List.length_flatMap, hmore, List.length_cons]
  omega

theorem lines_joined_plain (hls : ∀ l ∈ ls, IsPlain l) :
    lines (joined ls ++ rest) = ls.map visible ++ lines rest := by
  rw [lines_joined, List.map_eq_flatMap]
  congr 1
  exact List.flatMap_congr fun l hl => (hls l hl).lines

theorem visible_firstLine (l : List Char) : visible (firstLine l) = visible l := by
  rw [visible, firstLine, List.takeWhile_takeWhile, visible]
  congr
  funext c
  by_cases hc : c = '\n'
  · subst hc
    rfl
  · simp [hc]

theorem firstLine_append {start : List Char} (hstart : '\n' ∉ start) (rest : List Char) :
    firstLine (start ++ rest) = start ++ firstLine rest :=
  List.takeWhile_append_of_pos fun _ hc => decide_eq_true fun h => hstart (h ▸ hc)

/-- Of a plain line every character can be seen that does not end it. -/
theorem IsPlain.getElem?_visible {l : List Char} (h : IsPlain l) {i : Nat} {c : Char}
    (hc : ¬ isLineEnd c) (hi : l[i]? = some c) : (visible l)[i]? = some c := by
  rcases h with h | h
  · rwa [h] at hi
  · rw [h, List.getElem?_append] at hi
    split at hi
    · exact hi
    · obtain ⟨rfl⟩ := List.mem_singleton.mp (List.mem_of_getElem? hi)
      exact absurd (by decide) hc

theorem splitOn_head (l : List Char) : (l.splitOn '\n')[0]? = some (firstLine l) := by
  induction l with
  | nil => rfl
  | cons c l ih =>
    rw [List.splitOn_cons_eq_if_modifyHead]
    by_cases hc : c = '\n'
    · subst hc
      rfl
    · have hfirst : firstLine (c :: l) = c :: firstLine l :=
        List.takeWhile_cons_of_pos (decide_eq_true hc)
      rw [if_neg (by simpa using hc), List.getElem?_modifyHead, if_pos rfl, ih, hfirst]
      rfl

end Stencil.Text
