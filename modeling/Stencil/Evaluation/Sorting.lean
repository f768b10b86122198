import Stencil.Evaluation.Iterate

/-!
# Sorting

A stable sort that only asks whether a later item comes before an earlier one. The longest run
at the front is kept, reversed if it falls; every further item is put in by bisection.
-/

namespace Stencil.Sorting

variable {α : Type} (before : α → α → Eval Bool)

/-- How far the items go on falling, or not falling, from `previous` on. -/
def runLength (falling : Bool) (previous : α) : List α → Eval Nat
  | [] => return 0
  | a :: rest => do
    if (← before a previous) = falling then return (← runLength falling a rest) + 1 else return 0

/-- Where `a` belongs among the sorted items from `low` up to `high`, behind its equals. -/
def place (items : Array α) (a : α) (low : Nat) : Nat → Nat → Eval Nat
  | 0, _ => return low
  | fuel + 1, high =>
    if low < high then do
      let middle := low + (high - low) / 2
      match items[middle]? with
      | none => return low
      | some b =>
        if ← before a b then place items a low fuel middle
        else place items a (middle + 1) fuel high
    else return low
termination_by fuel => fuel

def insert (items : Array α) (a : α) : Eval (Array α) := do
  let i ← place before items a 0 (items.size + 1) items.size
  return items.insertIdxIfInBounds i a

def sort (items : List α) : Eval (List α) := do
  match items with
  | a :: b :: rest =>
    let falling ← before b a
    let n ← runLength before falling b rest
    let front := items.take (n + 2)
    let run := if falling then front.reverse else front
    let sorted ← (items.drop (n + 2)).foldlM (insert before) run.toArray
    return sorted.toList
  | items => return items

end Stencil.Sorting
