import Stencil.Proofs.CarriedRenders
import Stencil.Proofs.SafeExpressions
import Stencil.Proofs.SharedLists
import Stencil.Render

/-!
# Safe loops

A loop that counts its passes makes them by an iterator that stands right behind it and that nobody
else refers to. Such a loop is made in one step, from a sound heap to a sound one, and so it goes on
to its next pass.
-/

namespace Stencil

variable {l : Licence} {h : Heap} {w : World} {r : Ref} {s : LoopState}

/-- A loop goes on to the pass behind `k` others, and its iterator with it. -/
def Heap.passed (h : Heap) (r : Ref) (s : LoopState) (k : Nat) : Heap :=
  { h with
    cells := (h.cells.setIfInBounds r (.loop { s with index := k })).setIfInBounds (r + 1)
      (.iterator (.loop r (k + 1))) }

section Asked

variable {k : Nat} (hr : h.cells[r]? = some (.loop s))
  (hc : h.cells[r + 1]? = some (.iterator (.loop r k)))

include hr

theorem passed_cells (k : Nat) {c : Cell} (hc : h.cells[r + 1]? = some c) (q : Ref) :
    (h.passed r s k).cells[q]? =
      if r + 1 = q then some (.iterator (.loop r (k + 1)))
      else if r = q then some (.loop { s with index := k }) else h.cells[q]? := by
  let h' : Heap := { h with cells := h.cells.setIfInBounds r (.loop { s with index := k }) }
  have hc' : h'.cells[r + 1]? = some c := by
    dsimp only [h']
    rw [getElem?_written h hr, if_neg (Nat.succ_ne_self r).symm, hc]
  change (h'.cells.setIfInBounds (r + 1) _)[q]? = _
  rw [getElem?_written h' hc', getElem?_written h hr]

include hc

theorem passed_listItems (q : Ref) : (h.passed r s k).listItems q = h.listItems q := by
  unfold Heap.listItems
  rw [passed_cells hr k hc]
  by_cases hiterator : r + 1 = q
  · subst hiterator
    rw [if_pos rfl, hc]
  · by_cases hloop : r = q
    · subst hloop
      rw [if_neg hiterator, if_pos rfl, hr]
    · rw [if_neg hiterator, if_neg hloop]

theorem next_own_item {v : Value} (hitem : (h.listItems s.items)[k]? = some v) (n : Nat) :
    (Evaluator.standard.next (.iterator .generator (r + 1))).run n h =
      .ok (some v) (h.passed r s k) := by
  have hstep : ((Evaluator.run 999999).step (h.cursor (r + 1))).run n h =
      .ok (some (v, .loop r (k + 1)))
        { h with cells := h.cells.setIfInBounds r (.loop { s with index := k }) } := by
    rw [Heap.cursor_of_cell hc]
    change Eval.runOn ((Eval.passOf r k).run n h) _ = _
    rw [Eval.passOf_run, Heap.loopState_of_cell hr, hitem]
    rfl
  rw [Evaluator.standard_next]
  exact Evaluator.nextItem_of_some hstep

theorem next_own_end (hitem : (h.listItems s.items)[k]? = none) (n : Nat) :
    (Evaluator.standard.next (.iterator .generator (r + 1))).run n h =
      .ok none { h with cells := h.cells.setIfInBounds (r + 1) (.iterator .done) } := by
  rw [Evaluator.standard_next]
  refine Evaluator.nextItem_of_none (Heap.cursor_of_cell hc) rfl ?_
  change Eval.runOn ((Eval.passOf r k).run n h) _ = _
  rw [Eval.passOf_run, Heap.loopState_of_cell hr, hitem]
  rfl

end Asked

section Own

variable (hs : h.IsSound) (hr : h.cells[r]? = some (.loop s)) {c : Cursor}

include hs hr

theorem askOwn_leads (ha : l.asks r) (c : Cursor) :
    l.Leads h { h with cells := h.cells.setIfInBounds (r + 1) (.iterator c) } := by
  obtain ⟨old, hold, -⟩ := hs.followed hr
  have hget := getElem?_written h (c := .iterator c) hold
  have hloop {q : Ref} {s' : LoopState} (hq : h.cells[q]? = some (.loop s')) : r + 1 ≠ q := by
    rintro rfl
    rw [hold] at hq
    cases hq
  refine ⟨Nat.le_of_eq Array.size_setIfInBounds.symm, fun {q c'} hq => ?_, fun {q s'} hq => ?_,
    fun {q s'} hq hask => ?_, Nat.le_refl _, fun _ _ => rfl⟩
  · dsimp only
    rw [hget]
    by_cases heq : r + 1 = q
    · subst heq
      rw [hold] at hq
      cases hq
      exact ⟨_, if_pos rfl, rfl⟩
    · exact ⟨c', (if_neg heq).trans hq, rfl⟩
  · refine ⟨s'.index, ?_, fun _ => rfl⟩
    dsimp only
    rw [hget, if_neg (hloop hq), hq]
  · dsimp only
    rw [hget, if_neg]
    intro heq
    cases Nat.succ.inj heq
    exact hask ha

theorem askOwn_sound (hc : c.IsOwn r) :
    ({ h with cells := h.cells.setIfInBounds (r + 1) (.iterator c) } : Heap).IsSound := by
  let l : Licence := { Licence.strict h with asks := fun q => q = r }
  have hl : l.Leads h _ := askOwn_leads hs hr rfl c
  obtain ⟨old, hold, -⟩ := hs.followed hr
  have hget := getElem?_written h (c := .iterator c) hold
  have hbefore {q : Ref} {s' : LoopState}
      (hq : (h.cells.setIfInBounds (r + 1) (.iterator c))[q]? = some (.loop s')) :
      h.cells[q]? = some (.loop s') := by
    rw [hget] at hq
    split at hq
    · cases hq
    · exact hq
  refine ⟨fun {q c'} hq => ?_, fun hx => (hs.values hx).after hl,
    fun q => (hs.data q).after hl, fun {q s'} hq => ?_, fun hq hp => hs.parents (hbefore hq) hp⟩
  · dsimp only at hq
    rw [hget] at hq
    split at hq
    · cases hq
      have ho : Suits h (Value.loop r) := (suits_loopValue r).mpr (hs.offers_loop hr)
      cases c with
      | done => exact suits_of_isEmpty rfl
      | loop q k =>
        cases hc
        exact ho.after hl
      | _ => cases hc
    · exact (hs.cells hq).after hl
  · dsimp only
    rw [hget]
    by_cases heq : r = q
    · subst heq
      exact ⟨c, if_pos rfl, hc⟩
    · obtain ⟨c', hc', hown⟩ := hs.followed (hbefore hq)
      refine ⟨c', (if_neg fun hsucc => heq (Nat.succ.inj hsucc)).trans hc', hown⟩

/-- A loop that asks its own iterator gets an item, or none at its end. -/
theorem next_own (hled : l.Leads l.start h) (hm : l.moves r) (ha : l.asks r) (n : Nat) :
    ∃ item h', (Evaluator.standard.next (.iterator .generator (r + 1))).run n h = .ok item h' ∧
      l.Leads h h' ∧ h'.IsSound ∧ Suits h' item := by
  obtain ⟨c, hc, hown⟩ := hs.followed hr
  cases c with
  | done =>
    refine ⟨none, _, ?_, askOwn_leads hs hr ha .done, askOwn_sound hs hr trivial, suits_none⟩
    rw [Evaluator.standard_next]
    exact Evaluator.nextItem_of_none (Heap.cursor_of_cell hc) rfl rfl
  | loop q k =>
    cases hown
    cases hitem : (h.listItems s.items)[k]? with
    | none =>
      exact ⟨none, _, next_own_end hr hc hitem n, askOwn_leads hs hr ha .done,
        askOwn_sound hs hr trivial, suits_none⟩
    | some v =>
      have hpass := Safe.passOf k (hs.offers_loop hr) hm hs hled n
      rw [Eval.passOf_run, Heap.loopState_of_cell hr, hitem] at hpass
      cases hpass with
      | ok hl hs' hv =>
        have hr' : (h.cells.setIfInBounds r (.loop { s with index := k }))[r]? =
            some (.loop { s with index := k }) := by
          rw [getElem?_written h hr, if_pos rfl]
        have hl' := askOwn_leads hs' hr' ha (.loop r (k + 1))
        exact ⟨some v, _, next_own_item hr hc hitem n, hl.trans hl', askOwn_sound hs' hr' rfl,
          hv.after hl'⟩
  | _ => cases hown

end Own

/-- The evaluator asks the iterators of loops as they are asked in templates. -/
def Evaluator.TakesOwn (ev : Evaluator) : Prop :=
  ∀ {h : Heap} {r : Ref}, (h.cursor (r + 1)).IsOwn r → ∀ n,
    (ev.next (.iterator .generator (r + 1))).run n h =
      (standard.next (.iterator .generator (r + 1))).run n h

theorem Evaluator.standard_takesOwn : standard.TakesOwn := fun _ _ => rfl

namespace Heap

/-- The innermost enclosing loop that counts its passes, as its variable tells. -/
def parentOf (h : Heap) (s : Scope) : Option Ref :=
  (s.loops.find? (·.counted)).bind fun l =>
    ((h.frames.getD s.frame []).get? (.ofLoop l.position "loop")).bind Value.loop?

def withLoop (h : Heap) (s : Scope) (items : Ref) : Heap where
  cells := (h.cells.push (.loop ⟨items, (h.listItems items).size, 0, h.parentOf s⟩)).push
    (.iterator (.loop h.cells.size 0))
  frames := h.frames
  data := h.data

/-- The loop that was made at `r` gets its name. -/
def named (h : Heap) (s : Scope) (l : LoopScope) (r : Ref) : Heap :=
  if l.counted then
    { h with frames := h.frames.modify s.frame (·.put (.ofLoop l.position "loop") (.loop r)) }
  else h

end Heap

namespace Render

theorem frame_bind_run {α : Type} (r : Ref) (f : Frame → Eval α) (n : Nat) (h : Heap) :
    (Eval.frame r >>= f).run n h = (f (h.frames.getD r [])).run n h := rfl

theorem run_parentLoop (s : Scope) (n : Nat) (h : Heap) :
    (parentLoop s).run n h = .ok (h.parentOf s) h := by
  unfold parentLoop Heap.parentOf
  cases s.loops.find? (·.counted) with
  | none => rfl
  | some l =>
    refine (frame_bind_run _ _ n h).trans ?_
    dsimp only [Option.bind_some]
    cases (h.frames.getD s.frame []).get? (.ofLoop l.position "loop") with
    | none => rfl
    | some v => cases v <;> rfl

theorem startLoop_run (ev : Evaluator) (s : Scope) (l : LoopScope) (v : Value) (n : Nat)
    (h : Heap) : (startLoop ev s l true v).run n h =
      Eval.runOn ((materializedBy ev v).run n h) fun items h₁ =>
        .ok (.iterator .generator (h₁.cells.size + 1))
          ((h₁.withLoop s items).named s l h₁.cells.size) := by
  change Eval.runOn ((materializedBy ev v).run n h) _ = _
  congr 1
  funext items h₁
  change Eval.runOn ((parentLoop s).run n h₁) _ = _
  rw [run_parentLoop]
  have hsize : (h₁.cells.push
      (.loop ⟨items, (h₁.listItems items).size, 0, h₁.parentOf s⟩)).size = h₁.cells.size + 1 :=
    Array.size_push ..
  unfold Heap.named Heap.withLoop
  by_cases hl : l.counted = true
  · rw [if_pos hl, ← hsize]
    change Eval.run (if l.counted = true then _ else _) n _ = _
    rw [if_pos hl]
    rfl
  · rw [if_neg hl, ← hsize]
    change Eval.run (if l.counted = true then _ else _) n _ = _
    rw [if_neg hl]
    rfl

end Render

section Made

variable {scope : Scope} {items : Ref} (hs : h.IsSound)

include hs

theorem withLoop_leads (l : Licence) (scope : Scope) (items : Ref) :
    l.Leads h (h.withLoop scope items) where
  size_le := by
    unfold Heap.withLoop
    rw [Array.size_push, Array.size_push]
    omega
  kinds hc := ⟨_, getElem?_push_old (getElem?_push_old hc _) _, rfl⟩
  loops hc := ⟨_, getElem?_push_old (getElem?_push_old hc _) _, fun _ => rfl⟩
  iterators hc _ := by
    obtain ⟨c, hc', -⟩ := hs.followed hc
    exact (getElem?_push_old (getElem?_push_old hc' _) _).trans hc'.symm
  frames_le := Nat.le_refl _
  values _ _ := rfl

omit hs in
theorem withLoop_cells (q : Ref) : (h.withLoop scope items).cells[q]? =
    if q = h.cells.size + 1 then some (.iterator (.loop h.cells.size 0))
    else if q = h.cells.size then
      some (.loop ⟨items, (h.listItems items).size, 0, h.parentOf scope⟩)
    else h.cells[q]? := by
  unfold Heap.withLoop
  rw [Array.getElem?_push, Array.size_push, Array.getElem?_push]

theorem parentOf_loop {p : Ref} (hp : h.parentOf scope = some p) : h.Offers .loop p := by
  unfold Heap.parentOf at hp
  obtain ⟨l, -, hp⟩ := Option.bind_eq_some_iff.mp hp
  obtain ⟨v, hv, hp⟩ := Option.bind_eq_some_iff.mp hp
  cases v with
  | loop r =>
    cases hp
    exact (suits_loopValue _).mp (hs.values hv)
  | _ => cases hp

theorem withLoop_sound (hitems : h.Offers .list items) : (h.withLoop scope items).IsSound := by
  have hl : (Licence.strict h).Leads h (h.withLoop scope items) := withLoop_leads hs _ _ _
  have hloop : (h.withLoop scope items).cells[h.cells.size]? =
      some (.loop ⟨items, (h.listItems items).size, 0, h.parentOf scope⟩) := by
    rw [withLoop_cells, if_neg (Nat.ne_of_lt (Nat.lt_succ_self _)), if_pos rfl]
  have hoffered {k : CellKind} {q : Ref} (ho : h.Offers k q) :
      (h.withLoop scope items).Offers k q := hl.offers ho
  have hbefore {q : Ref} {s' : LoopState} (hq : h.cells.size ≠ q)
      (hc : (h.withLoop scope items).cells[q]? = some (.loop s')) :
      h.cells[q]? = some (.loop s') := by
    rw [withLoop_cells] at hc
    split at hc
    · cases hc
    · rwa [if_neg (Ne.symm hq)] at hc
  have hfollowed {q : Ref} {s' : LoopState}
      (hq : (h.withLoop scope items).cells[q]? = some (.loop s')) :
      ∃ c, (h.withLoop scope items).cells[q + 1]? = some (.iterator c) ∧ c.IsOwn q := by
    by_cases heq : h.cells.size = q
    · subst heq
      exact ⟨.loop h.cells.size 0, by rw [withLoop_cells, if_pos rfl], rfl⟩
    · obtain ⟨c, hc, hown⟩ := hs.followed (hbefore heq hq)
      exact ⟨c, getElem?_push_old (getElem?_push_old hc _) _, hown⟩
  have hnew : (h.withLoop scope items).Offers .loop h.cells.size := by
    refine ⟨?_, _, hloop, rfl⟩
    rintro ⟨q, s', hq, heq⟩
    obtain ⟨c, hc, -⟩ := hfollowed hq
    rw [← heq, hloop] at hc
    cases hc
  refine ⟨fun {q c} hq => ?_, fun hx => (hs.values hx).after hl,
    fun q => (hs.data q).after hl, hfollowed, fun {q s' p} hq hp => ?_⟩
  · rw [withLoop_cells] at hq
    split at hq
    · cases hq
      have hcell : refs (Cell.iterator (.loop h.cells.size 0)) = [(.loop, h.cells.size)] := rfl
      exact (suits_of_refs_singleton hcell).mpr hnew
    · split at hq
      · cases hq
        intro x hx
        rcases List.mem_cons.mp hx with rfl | hx
        · exact hoffered hitems
        · obtain ⟨p, hp, rfl⟩ := List.mem_map.mp hx
          exact hoffered (parentOf_loop hs (Option.mem_toList.mp hp))
      · exact (hs.cells hq).after hl
  · by_cases heq : h.cells.size = q
    · subst heq
      rw [hloop] at hq
      cases hq
      obtain ⟨-, c, hc, -⟩ := parentOf_loop hs hp
      exact (Array.getElem?_eq_some_iff.mp hc).1
    · exact hs.parents (hbefore heq hq) hp

theorem withLoop_offers : (h.withLoop scope items).Offers .loop h.cells.size := by
  refine ⟨?_, .loop ⟨items, (h.listItems items).size, 0, h.parentOf scope⟩, ?_, rfl⟩
  · rintro ⟨q, s', hq, heq⟩
    have hlt : q < h.cells.size := Nat.lt_of_lt_of_eq (Nat.lt_succ_self q) heq.symm
    rw [withLoop_cells, if_neg (Nat.ne_of_lt (Nat.lt_succ_of_lt hlt)),
      if_neg (Nat.ne_of_lt hlt)] at hq
    obtain ⟨c, hc, -⟩ := hs.followed hq
    exact absurd heq (Nat.ne_of_gt (Array.getElem?_eq_some_iff.mp hc).1)
  · rw [withLoop_cells, if_neg (Nat.ne_of_lt (Nat.lt_succ_self _)), if_pos rfl]

end Made

theorem named_cells (h : Heap) (scope : Scope) (ls : LoopScope) (r : Ref) :
    (h.named scope ls r).cells = h.cells := by
  unfold Heap.named
  split
  · rfl
  · rfl

theorem made_loop (h : Heap) (scope : Scope) (ls : LoopScope) (items : Ref) :
    ((h.withLoop scope items).named scope ls h.cells.size).cells[h.cells.size]? =
      some (.loop ⟨items, (h.listItems items).size, 0, h.parentOf scope⟩) := by
  rw [named_cells, withLoop_cells, if_neg (Nat.ne_of_lt (Nat.lt_succ_self _)), if_pos rfl]

namespace Render

variable {ev : Evaluator} {scope : Scope} {v : Value}

/-- A list is taken as it is, the items of anything else as a list of their own. -/
theorem materializedBy_run (hev : ev.IsSafe l) (hv : Suits h v) (hs : h.IsSound)
    (hled : l.Leads l.start h) (n : Nat) :
    (∃ items h₁, (materializedBy ev v).run n h = .ok items h₁ ∧ l.Leads h h₁ ∧ h₁.IsSound ∧
      h₁.Offers .list items) ∨
    ∃ halt h₁, (materializedBy ev v).run n h = .error halt h₁ ∧ l.Leads h h₁ ∧ h₁.IsSound := by
  unfold materializedBy
  split
  · exact .inl ⟨_, h, rfl, .refl l h, hs, (suits_listValue _).mp hv⟩
  · have hitems := Safe.collect hev hv hs hled n
    change (∃ items h₁, Eval.runOn ((ev.collect v).run n h) _ = _ ∧ _) ∨
      ∃ halt h₁, Eval.runOn ((ev.collect v).run n h) _ = _ ∧ _
    generalize (ev.collect v).run n h = r at hitems ⊢
    cases hitems with
    | @ok items h₁ hl hs₁ ha =>
      have hfits : Suits h₁ (Cell.list items) := ha
      exact .inl ⟨_, _, rfl, hl.trans (pushCell_leads hs₁ l _), pushCell_sound hs₁ hfits nofun,
        pushCell_offers hs₁ _⟩
    | error hl hs₁ _ => exact .inr ⟨_, _, rfl, hl, hs₁⟩

/-- A counted loop is made behind all that was there, and gets its iterator. -/
theorem startLoop_made (scope : Scope) (ls : LoopScope) (hev : ev.IsSafe l)
    (hbinds : ls.counted = true → l.binds scope.frame (.ofLoop ls.position "loop"))
    (hv : Suits h v) (hs : h.IsSound) (hled : l.Leads l.start h) (n : Nat) :
    (∃ items h₁ h₂, h₂ = (h₁.withLoop scope items).named scope ls h₁.cells.size ∧
      (startLoop ev scope ls true v).run n h = .ok (.iterator .generator (h₁.cells.size + 1)) h₂ ∧
      l.Leads h h₁ ∧ h₁.IsSound ∧ h₁.Offers .list items ∧ l.Leads h h₂ ∧ h₂.IsSound) ∨
    ∃ halt h', (startLoop ev scope ls true v).run n h = .error halt h' ∧ l.Leads h h' ∧
      h'.IsSound := by
  rw [startLoop_run]
  rcases materializedBy_run hev hv hs hled n with
    ⟨items, h₁, hrun, hl, hs₁, hitems⟩ | ⟨halt, h₁, hrun, hl, hs₁⟩
  · rw [hrun]
    have hl₂ := withLoop_leads hs₁ l scope items
    have hs₂ : (h₁.withLoop scope items).IsSound := withLoop_sound hs₁ hitems
    refine .inl ⟨items, h₁, _, rfl, rfl, hl, hs₁, hitems, ?_⟩
    unfold Heap.named
    by_cases hcounted : ls.counted = true
    · rw [if_pos hcounted]
      have hloop : Suits (h₁.withLoop scope items) (Value.loop h₁.cells.size) :=
        (suits_loopValue _).mpr (withLoop_offers hs₁)
      cases Safe.bindVariable (hbinds hcounted) hloop hs₂ (hled.trans (hl.trans hl₂)) n with
      | ok hl₃ hs₃ _ => exact ⟨(hl.trans hl₂).trans hl₃, hs₃⟩
    · rw [if_neg hcounted]
      exact ⟨hl.trans hl₂, hs₂⟩
  · rw [hrun]
    exact .inr ⟨halt, h₁, rfl, hl, hs₁⟩

end Render

end Stencil
