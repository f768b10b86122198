/-!
# Tables of character ranges

A table is written as lines of text: inclusive ranges of code points in hexadecimal, in increasing
order, `lo-hi` or a single `lo`, separated by blanks. Membership is a binary search.
-/

namespace Stencil.Text

structure CharRange where
  lo : Nat
  hi : Nat
deriving DecidableEq, Repr

structure CharTable where
  ranges : Array CharRange
deriving Repr

namespace CharTable

def hexDigit (c : Char) : Nat :=
  if c.isDigit then c.toNat - '0'.toNat else c.toNat - 'a'.toNat + 10

/-- Reads hexadecimal numbers; every other character ends one. -/
def readNumbers : List Char → Option Nat → List (Nat × Char) → List (Nat × Char)
  | [], none, acc => acc.reverse
  | [], some n, acc => ((n, ' ') :: acc).reverse
  | c :: cs, pending, acc =>
    if c.isDigit || ('a' ≤ c && c ≤ 'f') then
      readNumbers cs (some (pending.getD 0 * 16 + hexDigit c)) acc
    else
      match pending with
      | none => readNumbers cs none acc
      | some n => readNumbers cs none ((n, c) :: acc)

def pairUp : List (Nat × Char) → List CharRange
  | (lo, '-') :: (hi, _) :: rest => ⟨lo, hi⟩ :: pairUp rest
  | (lo, _) :: rest => ⟨lo, lo⟩ :: pairUp rest
  | [] => []

def readLines (lines : List String) : List (Nat × Char) :=
  lines.flatMap fun l => readNumbers l.toList none []

def ofText (lines : List String) : CharTable := ⟨(pairUp (readLines lines)).toArray⟩

/-- Binary search between `lo` and `hi`; the fuel bounds the number of halvings. -/
def searchBetween (ranges : Array CharRange) (n : Nat) : Nat → Nat → Nat → Bool
  | 0, _, _ => false
  | fuel + 1, lo, hi =>
    if lo < hi then
      let mid := (lo + hi) / 2
      match ranges[mid]? with
      | none => false
      | some r =>
        if n < r.lo then searchBetween ranges n fuel lo mid
        else if r.hi < n then searchBetween ranges n fuel (mid + 1) hi
        else true
    else false

def contains (t : CharTable) (c : Char) : Bool :=
  searchBetween t.ranges c.toNat (t.ranges.size + 1) 0 t.ranges.size

variable {t : CharTable} {c : Char} {ns : List Nat}

theorem mem_of_contains (h : t.contains c) : ∃ r ∈ t.ranges.toList, r.lo ≤ c.toNat ∧ c.toNat ≤ r.hi := by
  have hsearch {fuel lo hi : Nat} (h : searchBetween t.ranges c.toNat fuel lo hi) :
      ∃ r ∈ t.ranges.toList, r.lo ≤ c.toNat ∧ c.toNat ≤ r.hi := by
    induction fuel generalizing lo hi with
    | zero => cases h
    | succ fuel ih =>
      rw [searchBetween] at h
      dsimp only at h
      split at h
      · split at h
        · cases h
        · rename_i r hr
          split at h
          · exact ih h
          · split at h
            · exact ih h
            · exact ⟨r, Array.mem_toList_iff.mpr (Array.mem_of_getElem? hr), by omega, by omega⟩
      · cases h
  exact hsearch h

/-- None of the numbers is in the table. -/
def Lacks (t : CharTable) (ns : List Nat) : Prop :=
  ∀ r ∈ t.ranges.toList, ∀ n ∈ ns, n < r.lo ∨ r.hi < n

theorem Lacks.not_contains (h : t.Lacks ns) (hc : c.toNat ∈ ns) : t.contains c = false := by
  refine Bool.eq_false_iff.mpr fun hcontains => ?_
  obtain ⟨r, hr, hlo, hhi⟩ := mem_of_contains hcontains
  have hapart := h r hr _ hc
  omega

theorem pairUp_cons {n : Nat} {sep : Char} (h : sep ≠ '-') (rest : List (Nat × Char)) :
    pairUp ((n, sep) :: rest) = ⟨n, n⟩ :: pairUp rest := by
  rw [pairUp]
  exact fun _ _ _ _ heq => absurd heq h

theorem pairUp_append {as bs : List (Nat × Char)} (h : ∀ a ∈ as.getLast?, a.2 ≠ '-') :
    pairUp (as ++ bs) = pairUp as ++ pairUp bs := by
  induction as using pairUp.induct with
  | case1 lo hi sep rest ih =>
    rw [List.cons_append, List.cons_append, pairUp, pairUp, List.cons_append, ih fun a ha => ?_]
    cases rest with
    | nil => cases ha
    | cons => exact h a (by simpa only [List.getLast?_cons_cons] using ha)
  | case2 lo sep rest hsep ih =>
    have hne : sep ≠ '-' := by
      rintro rfl
      cases rest with
      | nil => exact h _ rfl rfl
      | cons a rest => exact hsep a.1 a.2 rest rfl rfl
    rw [List.cons_append, pairUp_cons hne, pairUp_cons hne, List.cons_append, ih fun a ha => ?_]
    cases rest with
    | nil => cases ha
    | cons => exact h a (by simpa only [List.getLast?_cons_cons] using ha)
  | case3 => rfl

/-- A table is looked through line by line. -/
theorem Lacks.cons {cs : List Char} {lines : List String}
    (hlast : ∀ a ∈ (readNumbers cs none []).getLast?, a.2 ≠ '-')
    (h : (pairUp (readNumbers cs none [])).all fun r => ns.all fun n => n.blt r.lo || r.hi.blt n)
    (hlines : (ofText lines).Lacks ns) : (ofText (String.ofList cs :: lines)).Lacks ns := by
  have hranges : (ofText (String.ofList cs :: lines)).ranges.toList =
      pairUp (readNumbers cs none []) ++ (ofText lines).ranges.toList := by
    rw [ofText, ofText, List.toList_toArray, List.toList_toArray, readLines, List.flatMap_cons,
      String.toList_ofList, pairUp_append hlast]
    rfl
  intro r hr
  rw [hranges, List.mem_append] at hr
  refine hr.elim (fun hr n hn => ?_) (hlines r)
  have hapart := List.all_eq_true.mp (List.all_eq_true.mp h r hr) n hn
  rwa [Bool.or_eq_true, Nat.blt_eq, Nat.blt_eq] at hapart

end CharTable

end Stencil.Text
