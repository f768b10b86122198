import Stencil.Proofs.CarriedRuns
import Stencil.Proofs.References
import Stencil.Value.Loop

/-!
# Safe evaluations

An evaluation is safe if it leads a sound heap to a sound one and delivers what fits there, however
it ends. Safe steps make safe evaluations, and so do the ways to make cells, to change them and to
bind variables, as far as a `Licence` goes.
-/

namespace Stencil

variable {α β γ : Type} [Refers α] [Refers β] [Refers γ] {l : Licence} {h h' : Heap}

/-- A heap was led to a sound one, and what is delivered fits there. -/
inductive Licence.Ends (l : Licence) (h : Heap) : Outcome α → Prop
  | ok {a : α} {h' : Heap} (hl : l.Leads h h') (hs : h'.IsSound) (ha : Suits h' a) :
      Ends l h (.ok a h')
  | error {halt : Halt} {h' : Heap} (hl : l.Leads h h') (hs : h'.IsSound) (hhalt : ¬ l.bars halt) :
      Ends l h (.error halt h')

/-- From a sound heap the evaluation ends well or halts in a sound heap that it leads to. -/
def Safe (l : Licence) (h : Heap) (x : Eval α) : Prop :=
  h.IsSound → l.Leads l.start h → ∀ n, l.Ends h (x.run n h)

namespace Licence

theorem not_bars_fault (l : Licence) (f : Fault) : ¬ l.bars (.fault f) := by
  intro hf
  obtain ⟨name, available, heq, -⟩ := l.barred hf
  cases heq

theorem not_bars_outOfSteps (l : Licence) : ¬ l.bars .outOfSteps := by
  intro hsteps
  obtain ⟨name, available, heq, -⟩ := l.barred hsteps
  cases heq

end Licence

theorem Licence.Ends.after {r : Outcome α} (hr : l.Ends h' r) (hl : l.Leads h h') :
    l.Ends h r := by
  cases hr with
  | ok hl' hs ha => exact .ok (hl.trans hl') hs ha
  | error hl' hs hhalt => exact .error (hl.trans hl') hs hhalt

def Licence.strict (h : Heap) : Licence where
  start := h
  moves _ := False
  asks _ := False
  binds _ _ := True
  own _ _ := trivial
  bars _ := False
  barred := False.elim

namespace Heap.IsSound

variable (hs : h.IsSound) {r : Ref}

include hs

theorem listItems (r : Ref) : Suits h (h.listItems r) := by
  unfold Heap.listItems
  split
  · rename_i hc
    exact hs.cells hc
  · exact suits_nil

theorem dictEntries (r : Ref) : Suits h (h.dictEntries r) := by
  unfold Heap.dictEntries
  split
  · rename_i hc
    exact hs.cells hc
  · exact suits_nil

theorem setItems (r : Ref) : Suits h (h.setItems r) := by
  unfold Heap.setItems
  split
  · rename_i hc
    exact hs.cells hc
  · exact suits_nil

theorem fields (r : Ref) : Suits h (h.fields r) := by
  unfold Heap.fields
  split
  · rename_i hc
    exact hs.cells hc
  · exact suits_nil

theorem cursor (r : Ref) : Suits h (h.cursor r) := by
  unfold Heap.cursor
  split
  · rename_i hc
    exact hs.cells hc
  · exact suits_of_isEmpty rfl

theorem closure {c : Closure} (hc : h.closure? r = some c) : Suits h c := by
  unfold Heap.closure? at hc
  split at hc
  · rename_i hcell
    cases hc
    exact hs.cells hcell
  · cases hc

theorem not_hides_loop {s : LoopState} (hr : h.cells[r]? = some (.loop s)) : ¬ h.Hides r := by
  rintro ⟨q, s', hq, rfl⟩
  obtain ⟨c, hc, -⟩ := hs.followed hq
  rw [hr] at hc
  cases hc

theorem offers_loop {s : LoopState} (hr : h.cells[r]? = some (.loop s)) : h.Offers .loop r :=
  ⟨hs.not_hides_loop hr, _, hr, rfl⟩

theorem not_hides_size : ¬ h.Hides h.cells.size := by
  rintro ⟨q, s, hq, hsize⟩
  obtain ⟨c, hc, -⟩ := hs.followed hq
  exact absurd hsize (Nat.ne_of_gt (Array.getElem?_eq_some_iff.mp hc).1)

end Heap.IsSound

theorem Heap.Offers.loopState {r : Ref} (ho : h.Offers .loop r) :
    h.cells[r]? = some (.loop (h.loopState r)) := by
  obtain ⟨-, c, hc, hk⟩ := ho
  obtain ⟨s, rfl⟩ := Cell.eq_loop_of_kind hk
  rw [Heap.loopState, hc]

section Cells

variable {c : Cell} {r : Ref}

theorem getElem?_push_old {α : Type} {xs : Array α} {a : α} {i : Nat} (hi : xs[i]? = some a)
    (b : α) : (xs.push b)[i]? = some a := by
  rw [Array.getElem?_push, if_neg, hi]
  exact Nat.ne_of_lt (Array.getElem?_eq_some_iff.mp hi).1

theorem pushCell_leads (hs : h.IsSound) (l : Licence) (c : Cell) :
    l.Leads h { h with cells := h.cells.push c } where
  size_le := by
    dsimp only
    rw [Array.size_push]
    exact Nat.le_succ _
  kinds hc := ⟨_, getElem?_push_old hc c, rfl⟩
  loops hc := ⟨_, getElem?_push_old hc c, fun _ => rfl⟩
  iterators hc _ := by
    obtain ⟨c', hc', -⟩ := hs.followed hc
    exact (getElem?_push_old hc' c).trans hc'.symm
  frames_le := Nat.le_refl _
  values _ _ := rfl

theorem pushCell_offers (hs : h.IsSound) (c : Cell) :
    ({ h with cells := h.cells.push c } : Heap).Offers c.kind h.cells.size := by
  refine ⟨?_, c, Array.getElem?_push_size, rfl⟩
  rintro ⟨q, s, hq, hsize⟩
  refine hs.not_hides_size ⟨q, s, ?_, hsize⟩
  have hlt : q < h.cells.size := Nat.lt_of_succ_le (Nat.le_of_eq hsize.symm)
  rw [Array.getElem?_push_lt hlt] at hq
  exact (Array.getElem?_eq_getElem hlt).trans hq

theorem pushCell_sound (hs : h.IsSound) (hfits : Suits h c) (hc : c.kind ≠ .loop) :
    ({ h with cells := h.cells.push c } : Heap).IsSound := by
  have hl := pushCell_leads hs (.strict h) c
  have hold {q : Ref} {s : LoopState} (hq : (h.cells.push c)[q]? = some (.loop s)) :
      h.cells[q]? = some (.loop s) := by
    rw [Array.getElem?_push] at hq
    split at hq
    · cases hq
      exact absurd rfl hc
    · exact hq
  refine ⟨fun {r c'} hr => ?_, fun hx => (hs.values hx).after hl, fun r => (hs.data r).after hl,
    fun hr => ?_, fun hr hp => hs.parents (hold hr) hp⟩
  · dsimp only at hr
    rw [Array.getElem?_push] at hr
    split at hr
    · cases hr
      exact hfits.after hl
    · exact (hs.cells hr).after hl
  · obtain ⟨c', hc', hown⟩ := hs.followed (hold hr)
    exact ⟨c', getElem?_push_old hc' c, hown⟩

/-- A cell is exchanged for another of its kind; a loop keeps its list and the loop around it. -/
structure Exchanges (l : Licence) (h : Heap) (r : Ref) (c : Cell) : Prop where
  shown : ¬ h.Hides r
  kind : ∃ old, h.cells[r]? = some old ∧ c.kind = old.kind
  loop : ∀ {s}, h.cells[r]? = some (.loop s) →
    ∃ i, c = .loop { s with index := i } ∧ (¬ l.moves r → i = s.index)

namespace Exchanges

variable (he : Exchanges l h r c)

include he

theorem getElem?_set (q : Ref) :
    (h.cells.setIfInBounds r c)[q]? = if r = q then some c else h.cells[q]? := by
  obtain ⟨old, hold, -⟩ := he.kind
  obtain ⟨hlt, -⟩ := Array.getElem?_eq_some_iff.mp hold
  rw [Array.getElem?_setIfInBounds]
  by_cases hq : r = q
  · rw [if_pos hq, if_pos hq, if_pos (hq ▸ hlt)]
  · rw [if_neg hq, if_neg hq]

theorem iterator_eq {q : Ref} {s : LoopState} (hq : h.cells[q]? = some (.loop s)) :
    (h.cells.setIfInBounds r c)[q + 1]? = h.cells[q + 1]? := by
  rw [he.getElem?_set, if_neg]
  exact fun hr => he.shown ⟨q, s, hq, hr⟩

theorem leads : l.Leads h { h with cells := h.cells.setIfInBounds r c } where
  size_le := Nat.le_of_eq Array.size_setIfInBounds.symm
  kinds {q c'} hc := by
    dsimp only
    rw [he.getElem?_set]
    by_cases hq : r = q
    · obtain ⟨old, hold, hk⟩ := he.kind
      rw [← hq, hold] at hc
      cases hc
      exact ⟨c, if_pos hq, hk⟩
    · exact ⟨c', (if_neg hq).trans hc, rfl⟩
  loops {q s} hc := by
    dsimp only
    rw [he.getElem?_set]
    by_cases hq : r = q
    · subst hq
      obtain ⟨i, rfl, hi⟩ := he.loop hc
      exact ⟨i, if_pos rfl, hi⟩
    · exact ⟨s.index, (if_neg hq).trans hc, fun _ => rfl⟩
  iterators hc _ := he.iterator_eq hc
  frames_le := Nat.le_refl _
  values _ _ := rfl

theorem sound (hs : h.IsSound) (hfits : Suits h c) :
    ({ h with cells := h.cells.setIfInBounds r c } : Heap).IsSound := by
  have hl := he.leads
  have hold {q : Ref} {s : LoopState} (hq : (h.cells.setIfInBounds r c)[q]? = some (.loop s)) :
      ∃ i, h.cells[q]? = some (.loop { s with index := i }) := by
    rw [he.getElem?_set] at hq
    by_cases hr : r = q
    · subst hr
      rw [if_pos rfl] at hq
      cases hq
      obtain ⟨old, hold, hk⟩ := he.kind
      obtain ⟨s', rfl⟩ := Cell.eq_loop_of_kind hk.symm
      obtain ⟨i, heq, -⟩ := he.loop hold
      cases heq
      exact ⟨s'.index, hold⟩
    · rw [if_neg hr] at hq
      exact ⟨s.index, hq⟩
  refine ⟨fun {q c'} hq => ?_, fun hx => (hs.values hx).after hl, fun q => (hs.data q).after hl,
    fun {q s} hq => ?_, fun {q s p} hq hp => ?_⟩
  · dsimp only at hq
    rw [he.getElem?_set] at hq
    by_cases hr : r = q
    · rw [if_pos hr] at hq
      cases hq
      exact hfits.after hl
    · rw [if_neg hr] at hq
      exact (hs.cells hq).after hl
  · obtain ⟨i, hq'⟩ := hold hq
    obtain ⟨c', hc', hown⟩ := hs.followed hq'
    exact ⟨c', (he.iterator_eq hq').trans hc', hown⟩
  · obtain ⟨i, hq'⟩ := hold hq
    exact hs.parents hq' hp

end Exchanges

end Cells

namespace Safe

variable {x : Eval α} {k : α → Eval β}

theorem of_led (hx : l.Leads l.start h → Safe l h x) : Safe l h x :=
  fun hs hled => hx hled hs hled

theorem pure {a : α} (ha : Suits h a) : Safe l h (Pure.pure a) :=
  fun hs _ _ => .ok (.refl l h) hs ha

theorem throw {halt : Halt} (hhalt : ¬ l.bars halt) :
    Safe l h (MonadExcept.throw halt : Eval α) :=
  fun hs _ _ => .error (.refl l h) hs hhalt

theorem outOfSteps : Safe l h (MonadExcept.throw Halt.outOfSteps : Eval α) :=
  throw l.not_bars_outOfSteps

theorem fault (f : Fault) : Safe l h (Eval.fault f : Eval α) := throw (l.not_bars_fault f)

theorem fault_bind {ε : Type} {f : Fault} {k : ε → Eval α} : Safe l h (Eval.fault f >>= k) :=
  fun hs _ _ => .error (.refl l h) hs (l.not_bars_fault f)

theorem fault_or {p : Prop} [Decidable p] {f : Fault} {k : Unit → Eval α}
    (hk : Safe l h (k ())) : Safe l h (if p then Eval.fault f >>= k else k ()) := by
  split
  · exact fault_bind
  · exact hk

theorem bind (hx : Safe l h x)
    (hk : ∀ {h' : Heap} {a : α}, l.Leads h h' → Suits h' a → Safe l h' (k a)) :
    Safe l h (x >>= k) := by
  intro hs hled n
  have hr := hx hs hled n
  change l.Ends h (Eval.runOn (x.run n h) fun a => (k a).run n)
  cases hrun : x.run n h with
  | ok a h' =>
    rw [hrun] at hr
    cases hr with
    | ok hl hs' ha => exact (hk hl ha hs' (hled.trans hl) n).after hl
  | error halt h' =>
    rw [hrun] at hr
    cases hr with
    | error hl hs' hhalt => exact .error hl hs' hhalt

theorem map {f : α → β} (hx : Safe l h x)
    (hf : ∀ {h' : Heap} {a : α}, l.Leads h h' → Suits h' a → Suits h' (f a)) :
    Safe l h (f <$> x) := bind hx fun hl ha => pure (hf hl ha)

theorem get {k : Heap → Eval α} (hk : h.IsSound → Safe l h (k h)) :
    Safe l h (MonadState.get >>= k) := fun hs hled n => hk hs hs hled n

theorem ofExcept {e : Except Fault α} (he : ∀ {a}, e = .ok a → Suits h a) :
    Safe l h (Eval.ofExcept e) := by
  cases e with
  | ok a => exact pure (he rfl)
  | error f => exact fault f

theorem compute {ε : Type} {e : Except Fault ε} {k : ε → Eval α}
    (hk : ∀ {a}, e = .ok a → Safe l h (k a)) : Safe l h (Eval.ofExcept e >>= k) := by
  cases e with
  | ok a => exact fun hs hled n => hk rfl hs hled n
  | error f => exact fun hs _ _ => .error (.refl l h) hs (l.not_bars_fault f)

theorem checked {p : Prop} [Decidable p] {e : Except Fault PUnit} {k : PUnit → Eval α}
    (hk : Safe l h (k ⟨⟩)) : Safe l h (if p then Eval.ofExcept e >>= k else k ⟨⟩) := by
  split
  · exact compute fun _ => hk
  · exact hk

theorem nested (cost : Nat) (hx : Safe l h x) : Safe l h (Eval.nested cost x) := by
  intro hs hled n
  change l.Ends h (if n + cost > Eval.deepestCall then _ else _)
  split
  · exact .error (.refl l h) hs (l.not_bars_fault _)
  · exact hx hs hled (n + cost)

theorem tryCatch {k : Halt → Eval α} (hx : Safe l h x)
    (hk : ∀ {h' : Heap} (halt : Halt), ¬ l.bars halt → l.Leads h h' → Safe l h' (k halt)) :
    Safe l h (MonadExcept.tryCatch x k) := by
  intro hs hled n
  have hr := hx hs hled n
  change l.Ends h (Eval.handled (x.run n h) fun halt => (k halt).run n)
  cases hrun : x.run n h with
  | ok a h' =>
    rw [hrun] at hr
    exact hr
  | error halt h' =>
    rw [hrun] at hr
    cases hr with
    | error hl hs' hhalt =>
      unfold Eval.handled
      dsimp only
      split
      · exact .error hl hs' hhalt
      · exact (hk halt hhalt hl hs' (hled.trans hl) n).after hl

theorem allocate_bind {c : Cell} {k : Ref → Eval α} (hc : c.kind ≠ .loop) (hfits : Suits h c)
    (hk : ∀ {h' : Heap} {r : Ref}, l.Leads h h' → h'.Offers c.kind r → Safe l h' (k r)) :
    Safe l h (Eval.allocate c >>= k) := by
  intro hs hled n
  have hl := pushCell_leads hs l c
  have hsafe := hk hl (pushCell_offers hs c) (pushCell_sound hs hfits hc) (hled.trans hl) n
  exact hsafe.after hl

theorem newList {items : Array Value} (hi : Suits h items) : Safe l h (Eval.newList items) :=
  allocate_bind (c := .list items) (fun hk => nomatch hk) hi fun _ ho =>
    pure ((suits_listValue _).mpr ho)

theorem newDict {entries : Array (Value × Value)} (he : Suits h entries) :
    Safe l h (Eval.newDict entries) :=
  allocate_bind (c := .dict entries) (fun hk => nomatch hk) he fun _ ho =>
    pure ((suits_dictValue _).mpr ho)

theorem newSet {items : Array Value} (hi : Suits h items) : Safe l h (Eval.newSet items) :=
  allocate_bind (c := .set items) (fun hk => nomatch hk) hi fun _ ho =>
    pure ((suits_setValue _).mpr ho)

theorem newIterator {kind : IteratorKind} {c : Cursor} (hc : Suits h c) :
    Safe l h (Eval.newIterator kind c) :=
  allocate_bind (c := .iterator c) (fun hk => nomatch hk) hc fun _ ho =>
    pure ((suits_iteratorValue _ _).mpr ho)

theorem exchange {r : Ref} {c : Cell} (he : Exchanges l h r c) (hfits : Suits h c) :
    Safe l h (Eval.write r c) :=
  fun hs _ _ => .ok he.leads (he.sound hs hfits) (suits_unit _)

theorem write {r : Ref} {c : Cell} (ho : h.Offers c.kind r) (hc : c.kind ≠ .loop)
    (hfits : Suits h c) : Safe l h (Eval.write r c) := by
  obtain ⟨hhides, old, hold, hk⟩ := ho
  refine exchange ⟨hhides, ⟨old, hold, hk.symm⟩, fun hr => ?_⟩ hfits
  rw [hold] at hr
  cases hr
  exact absurd hk.symm hc

theorem passOf {r : Ref} (i : Nat) (ho : h.Offers .loop r) (hm : l.moves r) :
    Safe l h (Eval.passOf r i) := by
  refine .get fun hs => ?_
  dsimp only
  split
  · exact pure suits_none
  · rename_i v hv
    have hitems := hs.listItems (h.loopState r).items
    have hfits : Suits h v := suits_array_iff.mp hitems v (Array.mem_of_getElem? hv)
    have hcell : Suits h (Cell.loop { h.loopState r with index := i }) :=
      (hs.cells ho.loopState).of_refs (List.Subset.refl (refs (h.loopState r)))
    refine bind (exchange ⟨ho.1, ⟨_, ho.loopState, rfl⟩, fun hr => ?_⟩ hcell) fun hl _ =>
      pure (suits_some.mpr (hfits.after hl))
    rw [ho.loopState] at hr
    cases hr
    exact ⟨i, rfl, fun hnot => absurd hm hnot⟩

theorem newFrame {b : Frame} (hb : ∀ {x v}, b.get? x = some v → Suits h v) :
    Safe l h (Eval.newFrame b) := by
  intro hs _ n
  have hl : l.Leads h { h with frames := h.frames.push b } :=
    { Licence.Leads.refl l h with
      frames_le := by
        rw [Array.size_push]
        exact Nat.le_succ _
      values := fun {r x} hr _ => by
        rw [Renaming.getD_push, if_neg (Nat.ne_of_lt hr)] }
  refine .ok hl ?_ (suits_nat _)
  exact { hs with
    values := fun {r x v} hx => by
      dsimp only at hx
      rw [Renaming.getD_push] at hx
      split at hx
      · exact hb hx
      · exact hs.values hx }

theorem bindVariable {r : Ref} {x : Variable} {v : Value} (hx : l.binds r x) (hv : Suits h v) :
    Safe l h (Eval.bind r x v) := by
  intro hs _ n
  have hl : l.Leads h { h with frames := h.frames.modify r (·.put x v) } :=
    { Licence.Leads.refl l h with
      frames_le := Nat.le_of_eq Array.size_modify.symm
      values := fun {r' x'} _ hx' => by
        dsimp only
        rw [Renaming.get?_modify, if_neg]
        rintro ⟨⟨rfl, -⟩, rfl⟩
        exact hx' hx }
  refine .ok hl ?_ (suits_unit _)
  exact { hs with
    values := fun {r' x' w} hx' => by
      dsimp only at hx'
      rw [Renaming.get?_modify] at hx'
      split at hx'
      · cases hx'
        exact hv
      · exact hs.values hx' }

theorem lookup (r : Ref) (x : Variable) {k : Eval Value} (hk : Safe l h k) :
    Safe l h (do
      match (← Eval.frame r).get? x with
      | some v => return v
      | none => k) := by
  refine .get fun hs => ?_
  dsimp only
  split
  · rename_i hx
    exact pure (hs.values hx)
  · exact hk

theorem newData {d : RenderData} (hd : Suits h d) : Safe l h (Eval.newData d) := by
  intro hs _ n
  have hl : l.Leads h { h with data := h.data.push d } := { Licence.Leads.refl l h with }
  refine .ok hl ?_ (suits_nat _)
  exact { hs with
    data := fun r => by
      dsimp only
      rw [Array.getD_eq_getD_getElem?, Array.getElem?_push]
      split
      · exact hd
      · rw [← Array.getD_eq_getD_getElem?]
        exact hs.data r }

theorem data (r : Ref) : Safe l h (Eval.data r) := .get fun hs => pure (hs.data r)

section Lists

variable {ε : Type} {es : List ε}

theorem mapM {k : ε → Eval α} (hk : ∀ {h' e}, l.Leads h h' → e ∈ es → Safe l h' (k e)) :
    Safe l h (es.mapM k) := by
  have hloop {h' : Heap} (hl : l.Leads h h') {done : List α} (hd : Suits h' done) :
      ∀ left ⊆ es, Safe l h' (List.mapM.loop k left done) := by
    intro left hleft
    induction left generalizing h' done with
    | nil =>
      refine pure (suits_list_iff.mpr fun a ha => ?_)
      exact suits_list_iff.mp hd a (List.mem_reverse.mp ha)
    | cons e left ih =>
      have he := hleft List.mem_cons_self
      refine bind (hk hl he) fun hl' ha => ih (hl.trans hl') (suits_cons.mpr ⟨ha, hd.after hl'⟩) ?_
      exact fun x hx => hleft (List.mem_cons_of_mem _ hx)
  exact hloop (.refl l h) suits_nil es (List.Subset.refl es)

theorem filterMapM {k : ε → Eval (Option α)}
    (hk : ∀ {h' e}, l.Leads h h' → e ∈ es → Safe l h' (k e)) : Safe l h (es.filterMapM k) := by
  have hloop {h' : Heap} (hl : l.Leads h h') {done : List α} (hd : Suits h' done) :
      ∀ left ⊆ es, Safe l h' (List.filterMapM.loop k left done) := by
    intro left hleft
    induction left generalizing h' done with
    | nil =>
      refine pure (suits_list_iff.mpr fun a ha => ?_)
      exact suits_list_iff.mp hd a (List.mem_reverse.mp ha)
    | cons e left ih =>
      have he := hleft List.mem_cons_self
      have hrest : left ⊆ es := fun x hx => hleft (List.mem_cons_of_mem _ hx)
      refine bind (hk hl he) fun {_ o} hl' ha => ?_
      cases o with
      | none => exact ih (hl.trans hl') (hd.after hl') hrest
      | some a =>
        exact ih (hl.trans hl') (suits_cons.mpr ⟨suits_some.mp ha, hd.after hl'⟩) hrest
  exact hloop (.refl l h) suits_nil es (List.Subset.refl es)

theorem forM {k : ε → Eval PUnit} (hk : ∀ {h' e}, l.Leads h h' → e ∈ es → Safe l h' (k e)) :
    Safe l h (es.forM k) := by
  induction es generalizing h with
  | nil => exact pure (suits_unit _)
  | cons e es ih =>
    refine bind (hk (.refl l h) List.mem_cons_self) fun hl _ => ih fun hl' he => ?_
    exact hk (hl.trans hl') (List.mem_cons_of_mem _ he)

theorem foldlM {k : α → ε → Eval α} {a : α} (ha : Suits h a)
    (hk : ∀ {h' e a}, l.Leads h h' → e ∈ es → Suits h' a → Safe l h' (k a e)) :
    Safe l h (es.foldlM k a) := by
  induction es generalizing h a with
  | nil => exact pure ha
  | cons e es ih =>
    refine bind (hk (.refl l h) List.mem_cons_self ha) fun hl ha => ih ha fun hl' he ha => ?_
    exact hk (hl.trans hl') (List.mem_cons_of_mem _ he) ha

end Lists

end Safe

end Stencil
