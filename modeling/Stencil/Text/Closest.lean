/-!
# The closest name

Similarity of two texts is twice the number of characters in their matching blocks over the
sum of their lengths. The blocks are found by taking the longest common run, the earliest if
there are several, and going on with what lies before and after it on both sides. In a target
of 200 characters or more, a character that makes up more than a hundredth of it (plus one)
starts no run, though a run may grow over it.
-/

namespace Stencil.Text.Closest

def popular (target : List Char) : List Char :=
  if target.length < 200 then []
  else target.eraseDups.filter fun c => target.count c > target.length / 100 + 1

/-- A run of `size` equal characters from `i` in one text and `j` in the other. -/
structure Run where
  i : Nat
  j : Nat
  size : Nat
deriving DecidableEq, Repr

/-- Lengths of the runs that end at `c` and each character of the target, given those that end
one character earlier in the other text. -/
def runRow (skip : List Char) (c : Char) : List Char → List Nat → Nat → List Nat
  | [], _, _ => []
  | d :: ds, previous, diagonal =>
    (if c = d && !skip.contains d then diagonal + 1 else 0) ::
      runRow skip c ds previous.tail (previous.headD 0)

def improve (i : Nat) (best : Run) : List Nat → Nat → Run
  | [], _ => best
  | k :: ks, j =>
    improve i (if k > best.size then ⟨i + 1 - k, j + 1 - k, k⟩ else best) ks (j + 1)

def longestFrom (skip target : List Char) : List Char → Nat → List Nat → Run → Run
  | [], _, _, best => best
  | c :: cs, i, previous, best =>
    let row := runRow skip c target previous 0
    longestFrom skip target cs (i + 1) row (improve i best row 0)

def common : List Char → List Char → Nat
  | a :: as, b :: bs => if a = b then common as bs + 1 else 0
  | _, _ => 0

/-- The longest common run, grown at both ends over skipped characters. -/
def longest (skip source target : List Char) : Run :=
  let r := longestFrom skip target source 0 [] ⟨0, 0, 0⟩
  let back := common (source.take r.i).reverse (target.take r.j).reverse
  let ahead := common (source.drop (r.i + r.size)) (target.drop (r.j + r.size))
  ⟨r.i - back, r.j - back, r.size + back + ahead⟩

/-- Number of characters in matching blocks; the fuel bounds the depth of the search. -/
def matchedWithin (skip : List Char) : Nat → List Char → List Char → Nat
  | 0, _, _ => 0
  | fuel + 1, source, target =>
    let r := longest skip source target
    if r.size = 0 then 0
    else
      matchedWithin skip fuel (source.take r.i) (target.take r.j) + r.size +
        matchedWithin skip fuel (source.drop (r.i + r.size)) (target.drop (r.j + r.size))

def matched (source target : List Char) : Nat :=
  matchedWithin (popular target) (source.length + 1) source target

/-- A ratio of matched characters, as numerator and denominator. -/
structure Similarity where
  matched : Nat
  total : Nat

def similarity (source target : List Char) : Similarity :=
  let total := source.length + target.length
  if total = 0 then ⟨1, 1⟩ else ⟨2 * matched source target, total⟩

def Similarity.reaches (s : Similarity) (num den : Nat) : Bool :=
  num * s.total ≤ s.matched * den

/-- The candidate most similar to `name` if it reaches three fifths; of equally similar ones,
the last in the order of texts. -/
def closest? (name : String) (candidates : List String) : Option String :=
  let scored := candidates.filterMap fun c =>
    let s := similarity c.toList name.toList
    if s.reaches 3 5 then some (s, c) else none
  (scored.foldl (fun best (s, c) =>
    match best with
    | none => some (s, c)
    | some (t, d) =>
      if t.matched * s.total < s.matched * t.total then some (s, c)
      else if t.matched * s.total = s.matched * t.total && d < c then some (s, c)
      else best) none).map (·.2)

end Stencil.Text.Closest
