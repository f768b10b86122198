import Stencil.Evaluation.Expression

/-!
# Loops over lists that change

A counted loop runs over the very list it is given and remembers how long that list was. Others may
append to the list and pop from it between the passes. What the loop tells in a pass depends on
three numbers only: how long the list was, how many passes have begun, and how long the list is now.
-/

namespace Stencil

variable {items r : Ref} {it : Value} {h h' h₀ h₁ : Heap} {xs now : Array Value}
  {parent : Option Ref} {k n : Nat} {ended : Bool}

/-- A loop over a list, with the iterator that makes its passes. -/
def Eval.loopOver (items : Ref) (parent : Option Ref) : Eval (Ref × Value) := do
  let loop ← newLoop items parent
  return (loop, ← (Value.loop loop).toIterator)

/-- The next item of a list that an iterator has been asked `k` times for. -/
def nextOf (now : Array Value) (k : Nat) (ended : Bool) : Option Value :=
  if ended then none else now[k]?

/-- From the heap `h₀` on, items of the list are taken from the iterator of a loop, and others are
appended to the list and popped from it, in any order. `k` items were taken, and the iterator may
have come to its end. -/
inductive Interleaves (items : Ref) (it : Value) (h₀ : Heap) : Nat → Bool → Heap → Prop
  | start : Interleaves items it h₀ 0 false h₀
  | taken {k : Nat} {ended : Bool} {h h' : Heap} {v : Value} {calls : Nat} :
      Interleaves items it h₀ k ended h →
      (Evaluator.standard.next it).run calls h = .ok (some v) h' →
      Interleaves items it h₀ (k + 1) ended h'
  | ended {k : Nat} {ended : Bool} {h h' : Heap} {calls : Nat} :
      Interleaves items it h₀ k ended h →
      (Evaluator.standard.next it).run calls h = .ok none h' →
      Interleaves items it h₀ k true h'
  | appended {k : Nat} {ended : Bool} {h h' : Heap} {v w : Value} {calls : Nat} :
      Interleaves items it h₀ k ended h →
      (callMethod Evaluator.standard (.list items) "append" [v] []).run calls h = .ok w h' →
      Interleaves items it h₀ k ended h'
  | popped {k : Nat} {ended : Bool} {h h' : Heap} {place : List Value} {w : Value} {calls : Nat} :
      Interleaves items it h₀ k ended h →
      (callMethod Evaluator.standard (.list items) "pop" place []).run calls h = .ok w h' →
      Interleaves items it h₀ k ended h'

/-- What a body may want to rely on: whatever it asks is answered, the pass is one of those that
were counted, the numbers fit together, and the last pass is the one after which no item comes. -/
structure LoopState.IsReliable (s : LoopState) (h : Heap) (it : Value) : Prop where
  answered : ∀ name answer, s.property? h name = some answer → ∃ v, answer = .ok v
  counted : ∃ index length remaining : Int,
    s.property? h "index" = some (.ok (.int index)) ∧
    s.property? h "length" = some (.ok (.int length)) ∧
    s.property? h "remaining" = some (.ok (.int remaining)) ∧
    1 ≤ index ∧ index ≤ length ∧ 0 ≤ remaining ∧ index + remaining = length
  last_iff : ∃ last : Bool, s.property? h "last" = some (.ok (.bool last)) ∧
    (last = true ↔ ∃ h', (Evaluator.standard.next it).run 0 h = .ok none h')

/-- The list as it is now, the loop in its pass and the iterator, each in a cell of its own. -/
structure LoopCells (items r n : Nat) (parent : Option Ref) (now : Array Value) (k : Nat)
    (ended : Bool) (h : Heap) : Prop where
  apart : items < r
  list : h.cells[items]? = some (.list now)
  loop : h.cells[r]? = some (.loop ⟨items, n, k - 1, parent⟩)
  iterator : h.cells[r + 1]? = some (.iterator (if ended then .done else .loop r k))

namespace Heap

theorem listItems_of_cell (hc : h.cells[items]? = some (.list now)) : h.listItems items = now := by
  rw [listItems, hc]

theorem loopState_of_cell {s : LoopState} (hc : h.cells[r]? = some (.loop s)) :
    h.loopState r = s := by
  rw [loopState, hc]

theorem cursor_of_cell {c : Cursor} (hc : h.cells[r]? = some (.iterator c)) : h.cursor r = c := by
  rw [cursor, hc]

end Heap

theorem getElem?_written (h : Heap) {r : Ref} {c old : Cell} (hr : h.cells[r]? = some old)
    (q : Ref) :
    (h.cells.setIfInBounds r c)[q]? = if r = q then some c else h.cells[q]? := by
  obtain ⟨hlt, -⟩ := Array.getElem?_eq_some_iff.mp hr
  rw [Array.getElem?_setIfInBounds]
  by_cases heq : r = q
  · rw [if_pos heq, if_pos heq, if_pos (heq ▸ hlt)]
  · rw [if_neg heq, if_neg heq]

theorem Evaluator.standard_next (it : Value) :
    standard.next it = (run 999999).nextItem it := by
  unfold standard deepestStep
  rw [run_succ]
  rfl

namespace Evaluator

variable {ev : Evaluator} {kind : IteratorKind} {calls : Nat} {c : Cursor}

theorem nextItem_of_some {v : Value}
    (hstep : (ev.step (h.cursor r)).run calls h = .ok (some (v, c)) h') :
    (ev.nextItem (.iterator kind r)).run calls h =
      .ok (some v) { h' with cells := h'.cells.setIfInBounds r (.iterator c) } := by
  change Eval.runOn ((ev.step (h.cursor r)).run calls h) _ = _
  rw [hstep]
  rfl

theorem nextItem_of_none (hcursor : h.cursor r = c) (hasks : asksAgain c = false)
    (hstep : (ev.step c).run calls h = .ok none h') :
    (ev.nextItem (.iterator kind r)).run calls h =
      .ok none { h' with cells := h'.cells.setIfInBounds r (.iterator .done) } := by
  subst hcursor
  change Eval.runOn ((ev.step (h.cursor r)).run calls h) _ = _
  rw [hstep]
  dsimp only [Eval.runOn]
  rw [hasks]
  rfl

end Evaluator

namespace Eval

theorem bind_ok {α β : Type} {x : Eval α} {f : α → Eval β} {b : β} {calls : Nat}
    (hrun : (x >>= f).run calls h = .ok b h') :
    ∃ a h₁, x.run calls h = .ok a h₁ ∧ (f a).run calls h₁ = .ok b h' := by
  change runOn (x.run calls h) (fun a => (f a).run calls) = _ at hrun
  cases hx : x.run calls h with
  | ok a h₁ => exact ⟨a, h₁, rfl, by rwa [hx] at hrun⟩
  | error halt h₁ =>
    rw [hx] at hrun
    cases hrun

theorem get_bind {α : Type} (f : Heap → Eval α) (calls : Nat) (h : Heap) :
    (get >>= f : Eval α).run calls h = (f h).run calls h := rfl

theorem ofExcept_ok {α : Type} {e : Except Fault α} {a : α} {calls : Nat}
    (hrun : (ofExcept e).run calls h = .ok a h') : e = .ok a ∧ h' = h := by
  cases e with
  | ok b =>
    cases hrun
    exact ⟨rfl, rfl⟩
  | error f => cases hrun

theorem passOf_run (loop : Ref) (k calls : Nat) (h : Heap) :
    (passOf loop k).run calls h =
      match (h.listItems (h.loopState loop).items)[k]? with
      | none => .ok none h
      | some v =>
        .ok (some v)
          { h with cells := h.cells.setIfInBounds loop (.loop { h.loopState loop with index := k }) } := by
  change Eval.run (match (h.listItems (h.loopState loop).items)[k]? with
    | none => _
    | some v => _ : Eval _) calls h = _
  split <;> rfl

theorem loopOver_run (hitems : h₀.cells[items]? = some (.list xs)) (parent : Option Ref)
    (calls : Nat) :
    ∃ r h₁, (loopOver items parent).run calls h₀ = .ok (r, .iterator .generator (r + 1)) h₁ ∧
      LoopCells items r xs.size parent xs 0 false h₁ := by
  obtain ⟨hlt, hget⟩ := Array.getElem?_eq_some_iff.mp hitems
  let s : LoopState := ⟨items, (h₀.listItems items).size, 0, parent⟩
  refine ⟨h₀.cells.size,
    { h₀ with cells := (h₀.cells.push (.loop s)).push (.iterator (.loop h₀.cells.size 0)) }, ?_,
    hlt, ?_, ?_, ?_⟩
  · have hsize : (h₀.cells.push (.loop s)).size = h₀.cells.size + 1 := Array.size_push ..
    rw [← hsize]
    rfl
  · rw [Array.getElem?_push_lt (by rw [Array.size_push]; omega), Array.getElem_push_lt hlt, hget]
  · have hs : s = ⟨items, xs.size, 0 - 1, parent⟩ := by
      simp only [s, Heap.listItems_of_cell hitems, Nat.zero_sub]
    rw [Array.getElem?_push_lt (by rw [Array.size_push]; omega), Array.getElem_push_eq, hs]
  · have hsize : (h₀.cells.push (.loop s)).size = h₀.cells.size + 1 := Array.size_push ..
    rw [← hsize, Array.getElem?_push_size]
    rfl

end Eval

namespace LoopCells

theorem iterator_apart (hc : LoopCells items r n parent now k ended h) : items ≠ r + 1 :=
  Nat.ne_of_lt (Nat.lt_succ_of_lt hc.apart)

theorem loopState_eq (hc : LoopCells items r n parent now k ended h) :
    h.loopState r = ⟨items, n, k - 1, parent⟩ := Heap.loopState_of_cell hc.loop

theorem listItems_eq (hc : LoopCells items r n parent now k ended h) : h.listItems items = now :=
  Heap.listItems_of_cell hc.list

theorem withList (hc : LoopCells items r n parent now k ended h) (now' : Array Value) :
    LoopCells items r n parent now' k ended
      { h with cells := h.cells.setIfInBounds items (.list now') } := by
  refine ⟨hc.apart, ?_, ?_, ?_⟩ <;> dsimp only <;> rw [getElem?_written h hc.list]
  · rw [if_pos rfl]
  · rw [if_neg (Nat.ne_of_lt hc.apart), hc.loop]
  · rw [if_neg hc.iterator_apart, hc.iterator]

theorem withEnd (hc : LoopCells items r n parent now k ended h) :
    LoopCells items r n parent now k true
      { h with cells := h.cells.setIfInBounds (r + 1) (.iterator .done) } := by
  refine ⟨hc.apart, ?_, ?_, ?_⟩ <;> dsimp only <;> rw [getElem?_written h hc.iterator]
  · rw [if_neg (Ne.symm hc.iterator_apart), hc.list]
  · rw [if_neg (Nat.succ_ne_self r), hc.loop]
  · rw [if_pos rfl, if_pos rfl]

theorem withPass (hc : LoopCells items r n parent now k false h) :
    LoopCells items r n parent now (k + 1) false
      { h with
        cells := (h.cells.setIfInBounds r (.loop ⟨items, n, k, parent⟩)).setIfInBounds
          (r + 1) (.iterator (.loop r (k + 1))) } := by
  let h' : Heap := { h with cells := h.cells.setIfInBounds r (.loop ⟨items, n, k, parent⟩) }
  have hother (q : Ref) (hq : r ≠ q) : h'.cells[q]? = h.cells[q]? := by
    rw [getElem?_written h hc.loop, if_neg hq]
  have hiterator : h'.cells[r + 1]? = some (.iterator (.loop r k)) :=
    (hother _ (Nat.succ_ne_self r).symm).trans hc.iterator
  refine ⟨hc.apart, ?_, ?_, ?_⟩ <;> dsimp only <;> rw [getElem?_written h' hiterator]
  · rw [if_neg (Ne.symm hc.iterator_apart), hother _ (Nat.ne_of_gt hc.apart), hc.list]
  · rw [if_neg (Nat.succ_ne_self r), getElem?_written h hc.loop, if_pos rfl, Nat.add_sub_cancel]
  · rw [if_pos rfl, if_neg Bool.false_ne_true]

theorem taken_run {v : Value} (hc : LoopCells items r n parent now k ended h)
    (hv : nextOf now k ended = some v) (calls : Nat) :
    ∃ h', (Evaluator.standard.next (.iterator .generator (r + 1))).run calls h =
        .ok (some v) h' ∧ LoopCells items r n parent now (k + 1) ended h' := by
  cases ended with
  | true => cases hv
  | false =>
    rw [nextOf, if_neg Bool.false_ne_true] at hv
    have hstep : ((Evaluator.run 999999).step (h.cursor (r + 1))).run calls h =
        .ok (some (v, .loop r (k + 1)))
          { h with cells := h.cells.setIfInBounds r (.loop ⟨items, n, k, parent⟩) } := by
      rw [Heap.cursor_of_cell hc.iterator]
      change Eval.runOn ((Eval.passOf r k).run calls h) _ = _
      rw [Eval.passOf_run, hc.loopState_eq, hc.listItems_eq, hv]
      rfl
    rw [Evaluator.standard_next]
    exact ⟨_, Evaluator.nextItem_of_some hstep, hc.withPass⟩

theorem ended_run (hc : LoopCells items r n parent now k ended h) (hend : nextOf now k ended = none)
    (calls : Nat) :
    ∃ h', (Evaluator.standard.next (.iterator .generator (r + 1))).run calls h = .ok none h' ∧
      LoopCells items r n parent now k true h' := by
  have hstep : ((Evaluator.run 999999).step (if ended then .done else .loop r k)).run calls h =
      .ok none h := by
    cases ended with
    | true => rfl
    | false =>
      rw [nextOf, if_neg Bool.false_ne_true] at hend
      change Eval.runOn ((Eval.passOf r k).run calls h) _ = _
      rw [Eval.passOf_run, hc.loopState_eq, hc.listItems_eq, hend]
      rfl
  have hasks : Evaluator.asksAgain (if ended then .done else .loop r k) = false := by
    cases ended <;> rfl
  rw [Evaluator.standard_next]
  exact ⟨_, Evaluator.nextItem_of_none (Heap.cursor_of_cell hc.iterator) hasks hstep, hc.withEnd⟩

theorem append_run (hc : LoopCells items r n parent now k ended h) (v : Value) (calls : Nat) :
    (callMethod Evaluator.standard (.list items) "append" [v] []).run calls h =
      .ok .none { h with cells := h.cells.setIfInBounds items (.list (now.push v)) } := by
  rw [← hc.listItems_eq]
  rfl

theorem pop_run {place : List Value} {w : Value} {calls : Nat}
    (hc : LoopCells items r n parent now k ended h)
    (hpop : (callMethod Evaluator.standard (.list items) "pop" place []).run calls h = .ok w h') :
    ∃ i < now.size, now[i]? = some w ∧
      h' = { h with cells := h.cells.setIfInBounds items (.list (now.eraseIdxIfInBounds i)) } := by
  obtain ⟨_, h₁, hkeywords, hmethod⟩ :=
    Eval.bind_ok (x := Eval.ofExcept (Arguments.noKeywords _ _)) hpop
  obtain ⟨-, rfl⟩ := Eval.ofExcept_ok hkeywords
  change (ListMethod.pop items place).run calls h₁ = .ok w h' at hmethod
  obtain ⟨_, h₂, hcount, hbody⟩ := Eval.bind_ok hmethod
  obtain ⟨-, rfl⟩ := Eval.ofExcept_ok hcount
  rw [Eval.get_bind, hc.listItems_eq] at hbody
  obtain ⟨m, h₃, hplace, hrest⟩ := Eval.bind_ok hbody
  obtain ⟨-, rfl⟩ := Eval.ofExcept_ok hplace
  cases hempty : now.isEmpty with
  | true =>
    rw [hempty] at hrest
    cases hrest
  | false =>
    rw [hempty, if_neg Bool.false_ne_true] at hrest
    dsimp only at hrest
    generalize (if m < 0 then m + (now.size : Int) else m) = i at hrest
    by_cases hi : (decide (i < 0) || decide (i ≥ now.size)) = true
    · rw [if_pos hi] at hrest
      cases hrest
    · rw [if_neg hi] at hrest
      simp only [Bool.or_eq_true, decide_eq_true_eq, not_or, Int.not_lt, ge_iff_le, Int.not_le]
        at hi
      have hlt : i.toNat < now.size := by omega
      obtain ⟨_, h₄, hremove, hend⟩ := Eval.bind_ok hrest
      cases hend
      refine ⟨i.toNat, hlt, ?_, ?_⟩
      · rw [Array.getD_eq_getD_getElem?, Array.getElem?_eq_getElem hlt, Option.getD_some]
      · rw [← hc.listItems_eq]
        cases hremove
        rfl

end LoopCells

theorem nextOf_of_run (hc : LoopCells items r n parent now k ended h) {calls : Nat}
    {o : Option Value}
    (hnext : (Evaluator.standard.next (.iterator .generator (r + 1))).run calls h = .ok o h') :
    o = nextOf now k ended ∧
      LoopCells items r n parent now (if o.isSome then k + 1 else k) (ended || o.isNone) h' := by
  cases hitem : nextOf now k ended with
  | none =>
    obtain ⟨h₁, hrun, hc'⟩ := hc.ended_run hitem calls
    rw [hrun] at hnext
    cases hnext
    rw [Option.isNone_none, Bool.or_true]
    exact ⟨rfl, hc'⟩
  | some v =>
    obtain ⟨h₁, hrun, hc'⟩ := hc.taken_run hitem calls
    rw [hrun] at hnext
    cases hnext
    rw [Option.isNone_some, Bool.or_false]
    exact ⟨rfl, hc'⟩

/-- In every interleaving the list, the loop and its iterator are where they were made. -/
theorem Interleaves.cells (hstart : LoopCells items r n parent xs 0 false h₀)
    (hrun : Interleaves items (.iterator .generator (r + 1)) h₀ k ended h) :
    ∃ now, LoopCells items r n parent now k ended h := by
  induction hrun with
  | start => exact ⟨xs, hstart⟩
  | taken hrun hnext ih =>
    obtain ⟨now, hc⟩ := ih
    have hc' := (nextOf_of_run hc hnext).2
    rw [Option.isNone_some, Bool.or_false] at hc'
    exact ⟨now, hc'⟩
  | ended hrun hnext ih =>
    obtain ⟨now, hc⟩ := ih
    have hc' := (nextOf_of_run hc hnext).2
    rw [Option.isNone_none, Bool.or_true] at hc'
    exact ⟨now, hc'⟩
  | appended hrun happend ih =>
    obtain ⟨now, hc⟩ := ih
    rw [hc.append_run] at happend
    cases happend
    exact ⟨_, hc.withList _⟩
  | popped hrun hpop ih =>
    obtain ⟨now, hc⟩ := ih
    obtain ⟨i, -, -, rfl⟩ := hc.pop_run hpop
    exact ⟨_, hc.withList _⟩

/-- The item before or after the present one: none at the edge that was counted, else what the list
has there now. -/
def neighbourOf (now : Array Value) (edge : Bool) (i : Nat) : Except Fault Value :=
  if edge then .ok .none
  else match now[i]? with
    | some v => .ok v
    | none => .error (.index "list index out of range")

/-- What a loop over `n` items tells in its pass `k`, when the list has become `now`. -/
structure LoopState.TellsOf (s : LoopState) (h : Heap) (n k : Nat) (now : Array Value) : Prop where
  index : s.property? h "index" = some (.ok (.int k))
  length : s.property? h "length" = some (.ok (.int n))
  remaining : s.property? h "remaining" = some (.ok (.int (n - k)))
  first : s.property? h "first" = some (.ok (.bool (k = 1)))
  last : s.property? h "last" = some (.ok (.bool (k = n)))
  previtem : s.property? h "previtem" = some (neighbourOf now (k = 1) (k - 2))
  nextitem : s.property? h "nextitem" = some (neighbourOf now (n ≤ k) k)

theorem LoopState.itemAt_eq {s : LoopState} (hitems : h.listItems s.items = now) (i : Nat) :
    s.itemAt h i = neighbourOf now false i := by
  rw [itemAt, hitems]
  rfl

/-- What a loop tells depends on how long its list was, the pass and the list as it is now. -/
theorem LoopState.tells {s : LoopState} (hlength : s.length = n) (hindex : s.index = k - 1)
    (hlist : h.listItems s.items = now) (hk : 0 < k) : s.TellsOf h n k now := by
  obtain ⟨i, rfl⟩ : ∃ i, k = i + 1 := ⟨k - 1, by omega⟩
  obtain ⟨items, length, index, parent⟩ := s
  cases hlength
  cases hindex
  have hitem := LoopState.itemAt_eq (s := ⟨items, length, i, parent⟩) hlist
  refine ⟨rfl, rfl, ?_, ?_, ?_, ?_, ?_⟩
  · change some (Except.ok (Value.int ((length : Int) - i - 1))) = _
    rw [Int.sub_sub]
    rfl
  · change some (Except.ok (Value.bool (decide (i = 0)))) = _
    simp only [Nat.add_eq_right]
  · rfl
  · change some (if i = 0 then _ else LoopState.itemAt _ h (i - 1)) = _
    rw [hitem]
    by_cases hi : i = 0
    · simp [hi, neighbourOf]
    · simp [hi, neighbourOf]
  · change some (if (length : Int) - i - 1 ≤ 0 then _ else LoopState.itemAt _ h (i + 1)) = _
    rw [hitem]
    by_cases hi : length ≤ i + 1
    · rw [if_pos (by omega), neighbourOf, decide_eq_true hi, if_pos rfl]
    · rw [if_neg (by omega), decide_eq_false hi]

theorem LoopCells.tells (hc : LoopCells items r n parent now k ended h) (hk : 0 < k) :
    (h.loopState r).TellsOf h n k now := by
  rw [hc.loopState_eq]
  exact LoopState.tells rfl rfl hc.listItems_eq hk

theorem LoopState.answered_iff (s : LoopState) (h : Heap) :
    (∀ name answer, s.property? h name = some answer → ∃ v, answer = .ok v) ↔
      (∃ v, s.previous h = .ok v) ∧ ∃ v, s.next h = .ok v := by
  constructor
  · intro hall
    exact ⟨hall "previtem" _ rfl, hall "nextitem" _ rfl⟩
  · rintro ⟨hprevious, hnext⟩ name answer hanswer
    unfold property? at hanswer
    dsimp only at hanswer
    split at hanswer <;> cases hanswer
    all_goals first
      | exact ⟨_, rfl⟩
      | exact hprevious
      | exact hnext

theorem neighbourOf_ok {edge : Bool} {i : Nat} :
    (∃ v, neighbourOf now edge i = .ok v) ↔ edge = true ∨ i < now.size := by
  unfold neighbourOf
  cases edge with
  | true => simp
  | false =>
    cases hi : now[i]? with
    | none =>
      have := Array.getElem?_eq_none_iff.mp hi
      simp
      omega
    | some v =>
      have := (Array.getElem?_eq_some_iff.mp hi).1
      simp [this]

namespace LoopCells

/-- The iteration ends where the list, as it is now, has no item for another pass. -/
theorem ends_iff (hc : LoopCells items r n parent now k ended h) (calls : Nat) :
    (∃ h', (Evaluator.standard.next (.iterator .generator (r + 1))).run calls h = .ok none h') ↔
      ended = true ∨ now.size ≤ k := by
  have hnone : nextOf now k ended = none ↔ ended = true ∨ now.size ≤ k := by
    cases ended <;> simp [nextOf]
  rw [← hnone]
  constructor
  · rintro ⟨h', hrun⟩
    exact (nextOf_of_run hc hrun).1.symm
  · intro hend
    obtain ⟨h', hrun, -⟩ := hc.ended_run hend calls
    exact ⟨h', hrun⟩

/-- Before the last pass that was counted the list must have an item for the next one; in that pass
it may have lost one item and must not have more than were counted. -/
theorem isReliable_iff (hc : LoopCells items r n parent now k ended h) (hk : 0 < k) :
    (h.loopState r).IsReliable h (.iterator .generator (r + 1)) ↔
      k < n ∧ k < now.size ∧ ended = false ∨
        k = n ∧ n ≤ now.size + 1 ∧ (ended = true ∨ now.size ≤ n) := by
  have htells := hc.tells hk
  have hanswered : (∀ name answer, (h.loopState r).property? h name = some answer →
      ∃ v, answer = .ok v) ↔ (k = 1 ∨ k - 2 < now.size) ∧ (n ≤ k ∨ k < now.size) := by
    rw [LoopState.answered_iff, Option.some.inj htells.previtem, Option.some.inj htells.nextitem,
      neighbourOf_ok, neighbourOf_ok, decide_eq_true_eq, decide_eq_true_eq]
  constructor
  · rintro ⟨hall, ⟨index, length, remaining, hindex, hlength, -, -, hle, -⟩, last, hlast, hends⟩
    obtain ⟨hprevious, hnext⟩ := hanswered.mp hall
    rw [htells.index] at hindex
    rw [htells.length] at hlength
    rw [htells.last] at hlast
    cases hindex
    cases hlength
    cases hlast
    rw [hc.ends_iff, decide_eq_true_eq] at hends
    have hkn : k ≤ n := by omega
    by_cases heq : k = n
    · exact .inr ⟨heq, by omega, heq ▸ hends.mp heq⟩
    · have hgoes := mt hends.mpr heq
      rw [not_or, Bool.not_eq_true] at hgoes
      exact .inl ⟨by omega, by omega, hgoes.1⟩
  · intro h
    refine ⟨hanswered.mpr (by omega), ⟨k, n, n - k, htells.index, htells.length, htells.remaining,
      by omega, by omega, by omega, by omega⟩, decide (k = n), htells.last, ?_⟩
    rw [hc.ends_iff, decide_eq_true_eq]
    rcases h with ⟨hkn, hlt, rfl⟩ | ⟨rfl, -, hends⟩
    · simp
      omega
    · exact iff_of_true rfl hends

end LoopCells

/-- A loop over a list that others append to and pop from: it tells the length that the list had,
the number of the pass and the neighbours that the list has now, and the next item is the one at that
place in the list as it is now. What it tells can be relied on exactly as long as the list still
agrees with the number of items that were counted. -/
theorem loop_tells_counted_length (hitems : h₀.cells[items]? = some (.list xs))
    (parent : Option Ref) :
    ∃ r it h₁, (Eval.loopOver items parent).run 0 h₀ = .ok (r, it) h₁ ∧
      ∀ {k : Nat} {ended : Bool} {h : Heap}, Interleaves items it h₁ k ended h → 0 < k →
        (h.loopState r).TellsOf h xs.size k (h.listItems items) ∧
        (∀ calls, ∃ h', (Evaluator.standard.next it).run calls h =
          .ok (nextOf (h.listItems items) k ended) h') ∧
        ((h.loopState r).IsReliable h it ↔
          k < xs.size ∧ k < (h.listItems items).size ∧ ended = false ∨
            k = xs.size ∧ xs.size ≤ (h.listItems items).size + 1 ∧
              (ended = true ∨ (h.listItems items).size ≤ xs.size)) := by
  obtain ⟨r, h₁, hmade, hstart⟩ := Eval.loopOver_run hitems parent 0
  refine ⟨r, _, h₁, hmade, ?_⟩
  intro k ended h hrun hk
  obtain ⟨now, hc⟩ := hrun.cells hstart
  rw [hc.listItems_eq]
  refine ⟨hc.tells hk, ?_, hc.isReliable_iff hk⟩
  intro calls
  cases hitem : nextOf now k ended with
  | none =>
    obtain ⟨h', hnext, -⟩ := hc.ended_run hitem calls
    exact ⟨h', hnext⟩
  | some v =>
    obtain ⟨h', hnext, -⟩ := hc.taken_run hitem calls
    exact ⟨h', hnext⟩

/-- A heap with nothing but a list of one item. -/
def loneList : Heap := ⟨#[.list #[.int 1]], #[], #[]⟩

def lonePass : Heap :=
  ⟨#[.list #[.int 1], .loop ⟨0, 1, 0, none⟩, .iterator (.loop 1 1)], #[], #[]⟩

/-- In that pass, an item is appended to the list. -/
def grownPass : Heap :=
  ⟨#[.list #[.int 1, .int 2], .loop ⟨0, 1, 0, none⟩, .iterator (.loop 1 1)], #[], #[]⟩

theorem grownPass_reached :
    Interleaves 0 (.iterator .generator 2)
      ⟨#[.list #[.int 1], .loop ⟨0, 1, 0, none⟩, .iterator (.loop 1 0)], #[], #[]⟩ 1 false
      grownPass := by
  have htaken : (Evaluator.standard.next (.iterator .generator 2)).run 0
      ⟨#[.list #[.int 1], .loop ⟨0, 1, 0, none⟩, .iterator (.loop 1 0)], #[], #[]⟩ =
      .ok (some (.int 1)) lonePass := by
    rw [Evaluator.standard_next]
    rfl
  have happended : (callMethod Evaluator.standard (.list 0) "append" [.int 2] []).run 0 lonePass =
      .ok .none grownPass := rfl
  exact .appended (.taken .start htaken) happended

theorem loop_tells_counted_length_grown :
    ∃ r it h₁, (Eval.loopOver 0 none).run 0 loneList = .ok (r, it) h₁ ∧
      Interleaves 0 it h₁ 1 false grownPass ∧ 0 < 1 ∧
      (grownPass.loopState r).TellsOf grownPass 1 1 #[.int 1, .int 2] ∧
      ¬ (grownPass.loopState r).IsReliable grownPass it := by
  obtain ⟨r, it, h₁, hmade, htells⟩ :=
    @loop_tells_counted_length 0 loneList #[.int 1] rfl none
  have hloop := hmade
  cases hloop
  obtain ⟨htells, -, hreliable⟩ := htells grownPass_reached Nat.one_pos
  refine ⟨1, .iterator .generator 2, _, hmade, grownPass_reached, Nat.one_pos, htells, ?_⟩
  exact fun h => absurd (hreliable.mp h) (by decide)

/-- The loop says that it is in its last pass, and yet another item comes. -/
theorem item_behind_last_pass :
    ∃ h₁, (Eval.loopOver 0 none).run 0 loneList = .ok (1, .iterator .generator 2) h₁ ∧
      Interleaves 0 (.iterator .generator 2) h₁ 1 false grownPass ∧
      (grownPass.loopState 1).property? grownPass "last" = some (.ok (.bool true)) ∧
      ∃ h', (Evaluator.standard.next (.iterator .generator 2)).run 0 grownPass =
        .ok (some (.int 2)) h' := by
  have hnext : (Evaluator.standard.next (.iterator .generator 2)).run 0 grownPass =
      .ok (some (.int 2)) ⟨#[.list #[.int 1, .int 2], .loop ⟨0, 1, 1, none⟩,
        .iterator (.loop 1 2)], #[], #[]⟩ := by
    rw [Evaluator.standard_next]
    rfl
  exact ⟨_, rfl, grownPass_reached, rfl, _, hnext⟩

end Stencil
