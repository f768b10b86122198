import Stencil.Proofs.Excerpts

/-!
# Carets in an excerpt

A caret stands on the row behind that of the line at fault. What is in front of the text there grows
with the number of the line from four digits on, and what is in front of the caret does not.
-/

namespace Stencil

namespace Snippet

/-- What stands in front of the text of the line at fault. -/
def gutter (line : Nat) : List Char :=
  '>' :: List.replicate (3 - (Nat.toDigits 10 line).length) ' ' ++ Nat.toDigits 10 line ++ [' ', '|', ' ']

/-- The row of a caret under this column. -/
def caretRow (column : Nat) : List Char :=
  List.replicate 5 ' ' ++ '|' :: List.replicate (column + 1) ' ' ++ ['^']

theorem length_gutter (line : Nat) :
    (gutter line).length = max 3 (Nat.toDigits 10 line).length + 4 := by
  simp only [gutter, List.cons_append, List.length_append, List.length_cons, List.length_replicate,
    List.length_nil]
  omega

/-- The caret's row is as far from its column as if the number of the line had three digits. -/
theorem idxOf_caret (column : Nat) : (caretRow column).idxOf '^' = 7 + column := by
  have hnone : '^' ∉ List.replicate 5 ' ' ++ '|' :: List.replicate (column + 1) ' ' := by
    simp
  rw [caretRow, List.idxOf_append_of_notMem hnone, List.idxOf_cons_self, List.length_append,
    List.length_cons, List.length_replicate, List.length_replicate]
  omega

theorem length_gutter_eq_iff {line : Nat} : (gutter line).length = 7 ↔ line < 1000 := by
  have hdigits : (Nat.toDigits 10 line).length ≤ 3 ↔ line < 10 ^ 3 :=
    Nat.length_toDigits_le_iff (by decide) (by decide)
  rw [length_gutter]
  omega

def plainRow (x : Int × String) : String := Terminal.sourceLine false x.1 x.2 false

theorem sourceLine_off (number : Int) (content : String) (atFault : Bool) :
    (Terminal.sourceLine false number content atFault).toList =
      (if atFault then '>' else ' ') :: (List.replicate (3 - number.repr.length) ' ' ++
        number.repr.toList ++ [' ', '|', ' '] ++ content.toList) := by
  cases atFault <;>
    simp [Terminal.sourceLine, Terminal.dim, Terminal.padLeft, String.toList_append]

theorem sourceLine_atFault (line : Nat) (content : String) :
    (Terminal.sourceLine false (line : Int) content true).toList =
      gutter line ++ content.toList := by
  have hnumber : (line : Int).repr.toList = Nat.toDigits 10 line := by
    rw [show (line : Int).repr = line.repr from rfl, Nat.repr_eq_ofList_toDigits,
      String.toList_ofList]
  rw [sourceLine_off, ← String.length_toList, hnumber, gutter]
  simp

theorem caretLine_off (column : Nat) : (caretLine false column).toList = caretRow column := by
  simp [caretLine, caretRow, Terminal.dim, List.replicate_succ]

theorem bodyLines_around {above below : List (Int × String)} {n column : Int} {l : String}
    (habove : ∀ x ∈ above, x.1 < n) (hbelow : ∀ x ∈ below, n < x.1) :
    bodyLines false ⟨above ++ (n, l) :: below, n, some column⟩ =
      above.map plainRow ++ Terminal.sourceLine false n l true :: caretLine false column ::
        below.map plainRow := by
  have hplain {ls : List (Int × String)} (hls : ∀ x ∈ ls, x.1 ≠ n) :
      bodyLines false ⟨ls, n, some column⟩ = ls.map plainRow := by
    rw [bodyLines, List.map_eq_flatMap]
    refine List.flatMap_congr fun x hx => ?_
    have hx := hls x hx
    simp only [hx, decide_false, if_false, plainRow]
  have habove' := hplain fun x hx => Int.ne_of_lt (habove x hx)
  have hbelow' := hplain fun x hx => Int.ne_of_gt (hbelow x hx)
  unfold bodyLines at habove' hbelow' ⊢
  rw [List.flatMap_append, List.flatMap_cons, habove', hbelow']
  simp

theorem head_plainRow (x : Int × String) : (plainRow x).toList.head? = some ' ' := by
  rw [plainRow, sourceLine_off]
  rfl

theorem newline_not_mem_digits (n : Nat) : '\n' ∉ n.repr.toList := by
  rw [Nat.repr_eq_ofList_toDigits, String.toList_ofList]
  intro h
  exact absurd (Nat.isDigit_of_mem_toDigits (by decide) (by decide) h) (by decide)

theorem newline_not_mem_number (number : Int) : '\n' ∉ number.repr.toList := by
  cases number with
  | ofNat n => exact newline_not_mem_digits n
  | negSucc n =>
    have hsign : (Int.negSucc n).repr.toList = '-' :: (n + 1).repr.toList :=
      String.toList_append
    rw [hsign]
    exact List.not_mem_cons_of_ne_of_not_mem (by decide) (newline_not_mem_digits _)

theorem newline_not_mem_sourceLine (number : Int) {content : String} (atFault : Bool)
    (h : '\n' ∉ content.toList) :
    '\n' ∉ (Terminal.sourceLine false number content atFault).toList := by
  rw [sourceLine_off]
  have hnumber := newline_not_mem_number number
  cases atFault <;> simp [h, hnumber]

/-- The rows of the text of an excerpt, without colors. -/
def rows (s : Snippet) : List (List Char) := (s.text false).toList.splitOn '\n'

/-- In front of the row at fault and behind the caret stand rows that are not marked. -/
theorem rows_around {above below : List (Int × String)} {line : Nat} {l : String} (column : Nat)
    (habove : ∀ x ∈ above, x.1 < (line : Int)) (hbelow : ∀ x ∈ below, (line : Int) < x.1)
    (hlines : ∀ x ∈ above ++ ((line : Int), l) :: below, '\n' ∉ x.2.toList) :
    rows ⟨above ++ ((line : Int), l) :: below, line, some (column : Int)⟩ =
      ("   |" :: above.map plainRow).map String.toList ++ (gutter line ++ l.toList) ::
        caretRow column :: (below.map plainRow ++ ["   |"]).map String.toList := by
  obtain ⟨habove', hown⟩ := List.forall_mem_append.mp hlines
  obtain ⟨hl, hbelow'⟩ := List.forall_mem_cons.mp hown
  have hbar : '\n' ∉ "   |".toList := by decide
  have hcaret : '\n' ∉ caretRow column := by simp [caretRow]
  have hplain {ls : List (Int × String)} (hls : ∀ x ∈ ls, '\n' ∉ x.2.toList) :
      ∀ r ∈ (ls.map plainRow).map String.toList, '\n' ∉ r :=
    List.forall_mem_map.mpr (List.forall_mem_map.mpr fun x hx =>
      newline_not_mem_sourceLine x.1 false (hls x hx))
  have hmarked : '\n' ∉ gutter line ++ l.toList := by
    rw [← sourceLine_atFault]
    exact newline_not_mem_sourceLine line true hl
  rw [rows, text, bodyLines_around habove hbelow, String.toList_intercalate]
  simp only [List.map_append, List.map_cons, List.map_nil, List.cons_append, List.append_assoc,
    sourceLine_atFault, caretLine_off, Terminal.dim, Terminal.colorize_off]
  refine List.splitOn_intercalate '\n' ?_ nofun
  rw [List.forall_mem_cons, List.forall_mem_append, List.forall_mem_cons, List.forall_mem_cons,
    List.forall_mem_append, List.forall_mem_singleton]
  exact ⟨hbar, hplain habove', hmarked, hcaret, hplain hbelow', hbar⟩

theorem index_of_only {α : Type} {p : α → Prop} {xs ys : List α} {r x : α} {j : Nat}
    (hxs : ∀ x ∈ xs, ¬ p x) (hys : ∀ y ∈ ys, ¬ p y) (h : (xs ++ r :: ys)[j]? = some x)
    (hx : p x) : j = xs.length := by
  rw [List.getElem?_append] at h
  split at h
  · exact absurd hx (hxs x (List.mem_of_getElem? h))
  · rename_i hj
    cases hrest : j - xs.length with
    | zero => omega
    | succ i =>
      rw [hrest, List.getElem?_cons_succ] at h
      exact absurd hx (hys x (List.mem_of_getElem? h))

theorem mem_textLines_of_build? {source : String} {line context : Int} {column : Option Int}
    {s : Snippet} (h : build? source line context column = some s) :
    ∀ x ∈ s.lines, x.2 ∈ source.textLines := by
  unfold build? at h
  dsimp only at h
  split at h
  · cases h
    intro x hx
    obtain ⟨⟨text, i⟩, hi, rfl⟩ := List.mem_map.mp hx
    have htext := List.fst_mem_of_mem_zipIdx hi
    exact List.mem_of_mem_drop (List.mem_of_mem_take htext)
  · cases h

theorem newline_not_mem_textLines (source : String) : ∀ l ∈ source.textLines, '\n' ∉ l.toList := by
  refine List.forall_mem_map.mpr fun l hl hn => ?_
  rw [String.toList_ofList] at hn
  exact Text.not_lineEnd_of_mem_lines _ l hl '\n' hn Text.isLineEnd_newline

/-- In the text of an excerpt around a line with a column, one row is marked, that of the line, and
the caret stands on the next one. -/
theorem rows_of_build? {source : String} {line : Nat}
    (hline : 0 < line ∧ line ≤ source.textLines.length) (context column : Nat) :
    ∃ snippet content i, build? source line context (some (column : Int)) = some snippet ∧
      source.textLines[line - 1]? = some content ∧
      snippet.rows[i]? = some (gutter line ++ content.toList) ∧
      snippet.rows[i + 1]? = some (caretRow column) ∧
      ∀ j row, snippet.rows[j]? = some row → row.head? = some '>' → j = i := by
  obtain ⟨k, rfl⟩ := Nat.exists_eq_succ_of_ne_zero hline.1.ne'
  have hl : source.textLines[k]? = some source.textLines[k] := List.getElem?_eq_getElem hline.2
  obtain ⟨above, below, hbuild, habove, hbelow⟩ := build?_around hl context (some (column : Int))
  have hrows := rows_around column habove hbelow fun x hx =>
    newline_not_mem_textLines source _ (mem_textLines_of_build? hbuild x hx)
  have hlength : (("   |" :: above.map plainRow).map String.toList).length = above.length + 1 := by
    simp
  refine ⟨_, _, above.length + 1, hbuild, hl, ?_, ?_, ?_⟩
  · rw [hrows, ← hlength, List.getElem?_append_right le_rfl, Nat.sub_self]
    rfl
  · rw [hrows, ← hlength, List.getElem?_append_right (Nat.le_add_right _ 1),
      Nat.add_sub_cancel_left]
    rfl
  · intro j row hrow hmark
    rw [hrows] at hrow
    have hbar : "   |".toList.head? ≠ some '>' := by decide
    have hplain {ls : List (Int × String)} :
        ∀ r ∈ (ls.map plainRow).map String.toList, r.head? ≠ some '>' :=
      List.forall_mem_map.mpr (List.forall_mem_map.mpr fun x _ => by simp [head_plainRow])
    rw [← hlength]
    refine index_of_only (List.forall_mem_cons.mpr ⟨hbar, hplain⟩) ?_ hrow hmark
    rw [List.map_append, List.forall_mem_cons, List.forall_mem_append]
    exact ⟨by simp [caretRow], hplain, List.forall_mem_singleton.mpr hbar⟩

end Snippet

open Snippet in
/-- In the text of an excerpt around a line with a column, one row is marked, that of the line. The
caret stands on the next row, seven characters and the column from the left; so it stands under
the column of the line if the number of the line has three digits at most, and only then. -/
theorem caret_under_column_iff {source : String} {line : Nat}
    (hline : 0 < line ∧ line ≤ source.textLines.length) (context column : Nat) :
    ∃ snippet content i, build? source line context (some (column : Int)) = some snippet ∧
      source.textLines[line - 1]? = some content ∧
      snippet.rows[i]? = some (gutter line ++ content.toList) ∧
      snippet.rows[i + 1]? = some (caretRow column) ∧
      (∀ j row, snippet.rows[j]? = some row → row.head? = some '>' → j = i) ∧
      (caretRow column).idxOf '^' = 7 + column ∧
      ((caretRow column).idxOf '^' = (gutter line).length + column ↔ line < 1000) := by
  obtain ⟨snippet, content, i, hbuild, hcontent, hrow, hcaret, honly⟩ :=
    rows_of_build? hline context column
  refine ⟨snippet, content, i, hbuild, hcontent, hrow, hcaret, honly, idxOf_caret column, ?_⟩
  rw [idxOf_caret, ← length_gutter_eq_iff]
  omega

/-- A source of nine lines; the last one has text. -/
def ninthSource : String := "\n\n\n\n\n\n\n\na ^ b"

open Snippet in
theorem caret_under_column_of_ninth :
    (0 < 9 ∧ 9 ≤ ninthSource.textLines.length) ∧
      ∃ snippet content i,
        build? ninthSource (9 : Nat) (2 : Nat) (some ((4 : Nat) : Int)) = some snippet ∧
        ninthSource.textLines[9 - 1]? = some content ∧
        snippet.rows[i]? = some (gutter 9 ++ content.toList) ∧
        snippet.rows[i + 1]? = some (caretRow 4) ∧
        (∀ j row, snippet.rows[j]? = some row → row.head? = some '>' → j = i) ∧
        (caretRow 4).idxOf '^' = 7 + 4 ∧
        ((caretRow 4).idxOf '^' = (gutter 9).length + 4 ↔ 9 < 1000) := by
  have hline : 0 < 9 ∧ 9 ≤ ninthSource.textLines.length := by decide +kernel
  exact ⟨hline, caret_under_column_iff hline 2 4⟩

/-- So many empty lines, and one with text behind them. -/
def lowSource (n : Nat) : String := String.ofList (Text.joined (List.replicate n []) ++ ['x'])

theorem lowSource_lines (n : Nat) : (lowSource n).textLines = List.replicate n "" ++ ["x"] := by
  have hplain : ∀ l ∈ List.replicate n ([] : List Char), Text.IsPlain l := by
    intro l hl
    rw [List.eq_of_mem_replicate hl]
    exact .inl rfl
  rw [lowSource, String.textLines, String.toList_ofList, Text.lines_joined_plain hplain,
    List.map_append, List.map_replicate, List.map_replicate]
  rfl

open Snippet in
/-- From four digits on the caret stands too far to the left. -/
theorem caret_left_of_thousandth :
    ∃ snippet i,
      build? (lowSource 999) (1000 : Nat) (0 : Nat) (some ((0 : Nat) : Int)) = some snippet ∧
      snippet.rows[i]? = some ">1000 | x".toList ∧ snippet.rows[i + 1]? = some "     | ^".toList ∧
      ">1000 | x".toList.idxOf 'x' = 8 ∧ "     | ^".toList.idxOf '^' = 7 := by
  have hlines := lowSource_lines 999
  have hlength : (lowSource 999).textLines.length = 1000 := by
    rw [hlines, List.length_append, List.length_replicate, List.length_singleton]
  have hline : 0 < 1000 ∧ 1000 ≤ (lowSource 999).textLines.length := ⟨by decide, hlength.ge⟩
  obtain ⟨snippet, content, i, hbuild, hcontent, hrow, hcaret, -⟩ := rows_of_build? hline 0 0
  rw [hlines, List.getElem?_append_right (by rw [List.length_replicate]), List.length_replicate]
    at hcontent
  cases hcontent
  exact ⟨snippet, i, hbuild, hrow, hcaret, by decide +kernel, by decide +kernel⟩

end Stencil
