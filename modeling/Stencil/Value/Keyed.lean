import Stencil.Value.Compare
import Stencil.Value.SetOrder

/-!
# Entries found by their keys

Dictionaries keep their entries in the order in which the keys came in; a new value for an old
key stays at the place of the key. Sets keep one item of those that are equal.
-/

namespace Stencil

namespace Value

variable (h : Heap)

/-- Where a key stands; only keys that can be hashed may be looked for. -/
def indexOfKey (k : Value) (keys : List Value) : Except Fault (Option Nat) := do
  asKey k
  let rec search (i : Nat) : List Value → Except Fault (Option Nat)
    | [] => .ok .none
    | k' :: rest => do if ← alike h k' k then return some i else search (i + 1) rest
  search 0 keys

def lookupKey? (entries : Array (Value × Value)) (k : Value) : Except Fault (Option Value) := do
  match ← indexOfKey h k (entries.toList.map (·.1)) with
  | some i => return entries[i]?.map (·.2)
  | .none => return .none

def putEntry (entries : Array (Value × Value)) (k v : Value) :
    Except Fault (Array (Value × Value)) := do
  match ← indexOfKey h k (entries.toList.map (·.1)) with
  | some i => return entries.modify i fun (k', _) => (k', v)
  | .none => return entries.push (k, v)

def putEntries (entries more : Array (Value × Value)) : Except Fault (Array (Value × Value)) :=
  more.foldlM (fun es (k, v) => putEntry h es k v) entries

def eraseEntry (entries : Array (Value × Value)) (k : Value) :
    Except Fault (Option (Value × Array (Value × Value))) := do
  match ← indexOfKey h k (entries.toList.map (·.1)) with
  | some i => return entries[i]?.map fun (_, v) => (v, entries.eraseIdxIfInBounds i)
  | .none => return .none

def addItem (items : List Value) (v : Value) : Except Fault (List Value) := do
  match ← indexOfKey h v items with
  | some _ => return items
  | .none => return items ++ [v]

def setOf (items : List Value) : Except Fault (Array Value) := do
  return (arrange (← items.foldlM (addItem h) [])).toArray

def contains (items : List Value) (v : Value) : Answer := anyM (fun w => alike h w v) items

end Value

end Stencil
