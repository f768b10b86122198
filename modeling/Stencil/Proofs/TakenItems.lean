import Stencil.Proofs.Moments
import Stencil.Proofs.SafeExpressions
import Stencil.Proofs.SharedLists
import Stencil.Proofs.SpareCells

/-!
# The items of a loop

A loop is told with the items it makes its passes for. Where these come one by one from what is
known of the heap, passes for them are what the loop makes, and two loops of which this holds make
passes for the same items.

An iterator that is made for a loop over a list, or over data that do not change, goes through known
cursors: of each it is known what it delivers and which one comes next.
-/

namespace Stencil

namespace Accord

variable {α β γ δ : Type} {f : α → β} {g : α → γ} {R R' : World → World → Prop}
  {r : EStateM.Result Stop World α} {r₁ : EStateM.Result Stop World β}
  {r₂ : EStateM.Result Stop World γ}

theorem imp (h : Accord f R r r₁)
    (hR : ∀ a w w', r = .ok a w → r₁ = .ok (f a) w' → R w w' → R' w w') : Accord f R' r r₁ := by
  cases h with
  | ok h => exact .ok (hR _ _ _ rfl rfl h)
  | error => exact .error

theorem fails {s : Stop} {w : World} (h : Accord f R (.error s w) r₁) :
    ∃ s₁ w₁, r₁ = .error s₁ w₁ := by
  cases h with
  | error => exact ⟨_, _, rfl⟩

theorem both (h₁ : Accord f R r r₁) (h₂ : Accord g R' r r₂) :
    (∃ a w₁ w₂, r₁ = .ok (f a) w₁ ∧ r₂ = .ok (g a) w₂) ∨
      (∃ s₁ w₁, r₁ = .error s₁ w₁) ∧ ∃ s₂ w₂, r₂ = .error s₂ w₂ := by
  cases h₁ with
  | ok h₁ =>
    cases h₂ with
    | ok h₂ => exact .inl ⟨_, _, _, rfl, rfl⟩
  | error =>
    cases h₂ with
    | error => exact .inr ⟨⟨_, _, rfl⟩, ⟨_, _, rfl⟩⟩

end Accord

namespace Render

variable (reach : Reach)

def eachTaken (it : Value) (body : Value → Action Output) :
    Nat → Output × List Value → Action (Output × List Value)
  | 0, _ => throw .outOfSteps
  | fuel + 1, done => do
    match ← reach.evaluate (reach.ev.next it) with
    | none => return done
    | some v => eachTaken it body fuel (done.1 ++ (← body v), done.2 ++ [v])

theorem eachItem_eq (it : Value) (body : Value → Action Output) (fuel : Nat)
    (done : Output × List Value) :
    eachItem reach it body fuel done.1 = Prod.fst <$> eachTaken reach it body fuel done := by
  induction fuel generalizing done with
  | zero => rfl
  | succ fuel ih =>
    rw [eachItem, eachTaken, map_bind]
    refine bind_congr fun next => ?_
    cases next with
    | none => rfl
    | some v =>
      dsimp only
      rw [map_bind]
      exact bind_congr fun out => ih (done.1 ++ out, done.2 ++ [v])

/-- A loop over the value of its source, with the items it makes its passes for. -/
def loopOver (scope : Scope) (p : Text.Position) (target : Code) (body : List Node) (v : Value) :
    Action (Output × List Value) := do
  let it ← reach.evaluate (startLoop reach.ev scope (loopScope p target body)
    (Node.mention "loop" body) v)
  eachTaken reach it (itemPass reach scope p target body) Evaluator.mostItems (#[], [])

/-- A loop, with the items it makes its passes for. -/
def loopTaken (scope : Scope) (p : Text.Position) (target source : Code) (body : List Node) :
    Action (Output × List Value) := do
  Action.markLine p.line
  let v ← evalCode reach scope source
  loopOver reach scope p target body (sourceValue v)

theorem node_eq_loopTaken (scope : Scope) (p : Text.Position) (k : LoopKeyword)
    (target source : Code) (body : List Node) :
    node reach scope (.loop p k target source body) =
      Prod.fst <$> loopTaken reach scope p target source body := by
  rw [node_loop, loopTaken, map_bind]
  refine bind_congr fun _ => ?_
  rw [started, bind_assoc, map_bind]
  refine bind_congr fun v => ?_
  rw [loopOver, map_bind]
  exact bind_congr fun it => eachItem_eq reach it _ _ (#[], [])

/-- Passes for the items of an array that the heap tells, as it is before each pass. -/
def eachPicked (pick : Heap → Array Value) (body : Value → Action Output) :
    Nat → Output × List Value → Action (Output × List Value)
  | 0, _ => throw .outOfSteps
  | fuel + 1, done => do
    match (pick (← Action.heap))[done.2.length]? with
    | none => return done
    | some v => eachPicked pick body fuel (done.1 ++ (← body v), done.2 ++ [v])

variable {reach} {it : Value} {body body' : Value → Action Output}
  {S : Nat → World → World → Prop} {g : Value → Value}

/-- In `w` the iterator delivers the item that is picked in `c`, up to `g`, and the pass for it
leads to worlds that `R` relates. -/
inductive Delivers (reach : Reach) (it : Value) (body body' : Value → Action Output)
    (g : Value → Value) (R : World → World → Prop) (c w : World) : Option Value → Prop
  | ended {w₁ : World} (hi : (reach.evaluate (reach.ev.next it)).run w = .ok none w₁) :
      Delivers reach it body body' g R c w none
  | passed {v : Value} {w₁ : World}
      (hi : (reach.evaluate (reach.ev.next it)).run w = .ok (some (g v)) w₁)
      (hp : Accord id R ((body v).run c) ((body' (g v)).run w₁)) :
      Delivers reach it body body' g R c w (some v)

/-- As long as the iterator delivers what is picked, the loop makes the same passes. The induction
is on the passes still allowed. -/
theorem eachTaken_accords {pick : Heap → Array Value}
    (hstep : ∀ k c w, S k c w → Delivers reach it body body' g (S (k + 1)) c w (pick c.heap)[k]?)
    (fuel : Nat) : ∀ (done : Output × List Value) {c w : World}, S done.2.length c w →
      Accord (Prod.map id (List.map g)) (fun _ _ => True) ((eachPicked pick body fuel done).run c)
        ((eachTaken reach it body' fuel (Prod.map id (List.map g) done)).run w) := by
  induction fuel with
  | zero =>
    intro _ _ _ _
    exact .error
  | succ fuel ih =>
    intro done c w hs
    have hnext := hstep _ c w hs
    rw [eachPicked, eachTaken, Action.bind_of_ok (x := Action.heap) (w := c) rfl]
    generalize (pick c.heap)[done.2.length]? = item at hnext ⊢
    cases hnext with
    | ended hi =>
      rw [Action.bind_of_ok hi]
      exact .ok trivial
    | @passed v w₁ hi hp =>
      rw [Action.bind_of_ok hi]
      dsimp only
      rw [EStateM.run_bind, EStateM.run_bind]
      generalize (body v).run c = r, (body' (g v)).run w₁ = r' at hp ⊢
      cases hp with
      | error => exact .error
      | @ok out c₁ w₂ hs₁ =>
        have hlength : (done.2 ++ [v]).length = done.2.length + 1 := List.length_append
        have hmap : Prod.map id (List.map g) (done.1 ++ out, done.2 ++ [v]) =
            (done.1 ++ out, done.2.map g ++ [g v]) := by
          rw [Prod.map_apply, List.map_append]
          rfl
        have hrest := ih (done.1 ++ out, done.2 ++ [v]) (hlength ▸ hs₁)
        rwa [hmap] at hrest

theorem eachPicked_fails {pick : Heap → Array Value} {bound : Nat}
    (hsize : ∀ h, bound ≤ (pick h).size) (fuel : Nat) :
    ∀ (done : Output × List Value) {c : World}, done.2.length + fuel ≤ bound →
      ∃ s c', (eachPicked pick body fuel done).run c = .error s c' := by
  induction fuel with
  | zero =>
    intro _ _ _
    exact ⟨_, _, rfl⟩
  | succ fuel ih =>
    intro done c hbound
    have hlt : done.2.length < (pick c.heap).size := by
      have := hsize c.heap
      omega
    rw [eachPicked, Action.bind_of_ok (x := Action.heap) (w := c) rfl,
      Array.getElem?_eq_getElem hlt]
    dsimp only
    rw [EStateM.run_bind]
    cases hbody : (body (pick c.heap)[done.2.length]).run c with
    | error s c₁ => exact ⟨s, c₁, rfl⟩
    | ok out c₁ =>
      refine ih (done.1 ++ out, done.2 ++ [_]) ?_
      rw [List.length_append]
      change done.2.length + 1 + fuel ≤ bound
      omega

/-- A loop whose items do not end before it has made all passes allowed fails. -/
theorem eachTaken_fails {S : Nat → World → Prop} (bound : Nat)
    (hstep : ∀ k w, k < bound → S k w →
      (∃ s w₁, (reach.evaluate (reach.ev.next it)).run w = .error s w₁) ∨
        ∃ v w₁, (reach.evaluate (reach.ev.next it)).run w = .ok (some v) w₁ ∧
          ∀ out w₂, (body v).run w₁ = .ok out w₂ → S (k + 1) w₂) (fuel : Nat) :
    ∀ {k : Nat} {done : Output × List Value} {w : World}, S k w → k + fuel = bound →
      ∃ s w', (eachTaken reach it body fuel done).run w = .error s w' := by
  induction fuel with
  | zero => exact fun _ _ => ⟨_, _, rfl⟩
  | succ fuel ih =>
    intro k done w hs hbound
    rw [eachTaken]
    rcases hstep k w (by omega) hs with ⟨s, w₁, hi⟩ | ⟨v, w₁, hi, hp⟩
    · exact ⟨s, w₁, Action.bind_of_error hi _⟩
    · rw [Action.bind_of_ok hi]
      dsimp only
      rw [EStateM.run_bind]
      cases hbody : (body v).run w₁ with
      | error s w₂ => exact ⟨s, w₂, rfl⟩
      | ok out w₂ => exact ih (hp out w₂ hbody) (by omega)

end Render

variable {h h₀ : Heap}

/-- The cursors that an iterator goes through, one for each item, and the items they deliver. They
can be told as long as certain cells are as they were in `h₀`. -/
structure Course (h₀ : Heap) where
  cursor : Nat → Cursor
  pick : Heap → Array Value
  watches : Ref → Prop
  step : ∀ {h : Heap}, (∀ r, watches r → h.cells[r]? = h₀.cells[r]?) →
    ∀ (ev : Evaluator) (i n : Nat), (ev.step (cursor i)).run n h =
      .ok ((pick h)[i]?.map fun v => (v, cursor (i + 1))) h
  ends : ∀ i, Evaluator.asksAgain (cursor i) = false

namespace Course

/-- The items of a list, as it is when they are asked for. -/
def list (h₀ : Heap) (r : Ref) : Course h₀ where
  cursor i := .list r i
  pick h := h.listItems r
  watches _ := False
  step {h} _ ev i n := by
    change Eval.run (match (h.listItems r)[i]? with
      | some v => _
      | none => _ : Eval _) n h = _
    cases (h.listItems r)[i]? <;> rfl
  ends _ := rfl

def items (h₀ : Heap) (vs : List Value) : Course h₀ where
  cursor i := .items (vs.drop i)
  pick _ := vs.toArray
  watches _ := False
  step {h} _ ev i n := by
    rw [List.getElem?_toArray, ← List.head?_drop]
    cases hrest : vs.drop i with
    | nil => rfl
    | cons v rest =>
      have hnext : vs.drop (i + 1) = rest := by rw [← List.tail_drop, hrest, List.tail_cons]
      rw [hnext]
      rfl
  ends _ := rfl

def range (h₀ : Heap) (start step : Int) (length : Nat) : Course h₀ where
  cursor i := .range (start + step * i) step (length - i)
  pick _ := (Array.range length).map fun i : Nat => .int (start + step * i)
  watches _ := False
  step {h} _ ev i n := by
    rw [Array.getElem?_map, Array.getElem?_range]
    by_cases hi : i < length
    · obtain ⟨k, hk⟩ : ∃ k, length - i = k + 1 := ⟨length - i - 1, by omega⟩
      have hnext : length - (i + 1) = k := by omega
      have hstart : start + step * ((i + 1 : Nat) : Int) = start + step * i + step := by
        rw [Int.natCast_add, Int.mul_add, Int.add_assoc]
        simp
      rw [if_pos hi, hk, hnext, hstart]
      rfl
    · rw [if_neg hi, Nat.sub_eq_zero_of_le (Nat.le_of_not_lt hi)]
      rfl
  ends _ := rfl

def entries (h₀ : Heap) (kind : ViewKind) (r : Ref) : Course h₀ where
  cursor i := .dict kind r i (h₀.dictEntries r).size
  pick _ := (h₀.dictEntries r).map (Evaluator.viewItem kind)
  watches q := q = r
  step {h} hkept ev i n := by
    have hentries : h.dictEntries r = h₀.dictEntries r := by
      unfold Heap.dictEntries
      rw [hkept r rfl]
    rw [Array.getElem?_map, ← hentries]
    unfold Evaluator.step
    refine (Eval.get_bind _ n h).trans ?_
    dsimp only
    rw [if_neg fun hsize => hsize rfl]
    cases (h.dictEntries r)[i]? <;> rfl
  ends _ := rfl

def members (h₀ : Heap) (r : Ref) : Course h₀ where
  cursor i := .set r i (h₀.setItems r).size
  pick _ := h₀.setItems r
  watches q := q = r
  step {h} hkept ev i n := by
    have hitems : h.setItems r = h₀.setItems r := by
      unfold Heap.setItems
      rw [hkept r rfl]
    rw [← hitems]
    unfold Evaluator.step
    refine (Eval.get_bind _ n h).trans ?_
    dsimp only
    rw [if_neg fun hsize => hsize rfl]
    cases (h.setItems r)[i]? <;> rfl
  ends _ := rfl

end Course

def Heap.withIterator (h : Heap) (c : Cursor) : Heap :=
  { h with cells := h.cells.push (.iterator c) }

/-- The course of an iterator over a value whose items, once it is made, do not change unless the
value does. -/
def Value.settledCourse? (h₀ : Heap) : Value → Option (Course h₀)
  | .tuple items => some (.items h₀ items)
  | .str s => some (.items h₀ (s.toList.map fun c => .str c.toString))
  | .bytes b => some (.items h₀ (b.map fun c => .int c.toNat))
  | .range a b c => some (.range h₀ a c (Value.rangeLength a b c))
  | .dict r => some (.entries h₀ .keys r)
  | .view kind r => some (.entries h₀ kind r)
  | .set r => some (.members h₀ r)
  | _ => Option.none

namespace Value

variable {v : Value} {course : Course h}

theorem toIterator_list (r : Ref) (n : Nat) (h : Heap) :
    (Value.list r).toIterator.run n h =
      .ok (.iterator .list h.cells.size) (h.withIterator ((Course.list h r).cursor 0)) := rfl

theorem toIterator_settled (hc : v.settledCourse? h = some course) : ∃ kind, ∀ n,
    v.toIterator.run n h =
      .ok (.iterator kind h.cells.size) (h.withIterator (course.cursor 0)) := by
  cases v with
  | range a b c =>
    cases hc
    have hfirst : (Course.range h a c (rangeLength a b c)).cursor 0 =
        .range a c (rangeLength a b c) := by simp [Course.range]
    rw [hfirst]
    exact ⟨_, fun _ => rfl⟩
  | tuple | str | bytes | dict | view | set =>
    cases hc
    exact ⟨_, fun _ => rfl⟩
  | _ => cases hc

theorem settled_pick (hc : v.settledCourse? h = some course) (h' : Heap) :
    course.pick h' = course.pick h := by
  unfold settledCourse? at hc
  split at hc <;> cases hc <;> rfl

theorem settled_suits (hs : h.IsSound) (hv : Suits h v) (hc : v.settledCourse? h = some course) :
    Suits h (course.pick h) := by
  have hentries (kind : ViewKind) (r : Ref) :
      Suits h ((h.dictEntries r).map (Evaluator.viewItem kind)) := by
    refine suits_array_iff.mpr fun v hv => ?_
    obtain ⟨e, he, rfl⟩ := Array.mem_map.mp hv
    exact Safe.viewItem_suits kind (suits_array_iff.mp (hs.dictEntries r) e he)
  cases v with
  | tuple items =>
    cases hc
    exact (suits_tupleValue items).mp hv
  | str s =>
    cases hc
    exact Safe.suits_strValues (fun c => c.toString) s.toList
  | bytes b =>
    cases hc
    exact Safe.suits_intValues (fun c => c.toNat) b
  | range a b c =>
    cases hc
    refine suits_array_iff.mpr fun v hv => ?_
    obtain ⟨i, -, rfl⟩ := Array.mem_map.mp hv
    exact suits_intValue _
  | dict r =>
    cases hc
    exact hentries .keys r
  | view kind r =>
    cases hc
    exact hentries kind r
  | set r =>
    cases hc
    exact hs.setItems r
  | _ => cases hc

theorem settled_watches (hv : Suits h v) (hc : v.settledCourse? h = some course) {r : Ref}
    (hr : course.watches r) : r < h.cells.size := by
  have hoffered {k : CellKind} {q : Ref} (ho : h.Offers k q) : q < h.cells.size := by
    obtain ⟨-, c, hc, -⟩ := ho
    exact (Array.getElem?_eq_some_iff.mp hc).1
  cases v with
  | tuple | str | bytes | range =>
    cases hc
    exact hr.elim
  | dict q =>
    cases hc
    cases hr
    exact hoffered ((suits_dictValue _).mp hv)
  | view kind q =>
    cases hc
    cases hr
    exact hoffered ((suits_viewValue _ _).mp hv)
  | set q =>
    cases hc
    cases hr
    exact hoffered ((suits_setValue _).mp hv)
  | _ => cases hc

end Value

section Asked

variable (course : Course h₀) {r : Ref} {i : Nat}

/-- It delivers what is to be picked, and is then at the next cursor or at its end. -/
theorem Course.next (hkept : ∀ q, course.watches q → h.cells[q]? = h₀.cells[q]?)
    (hc : h.cells[r]? = some (.iterator (course.cursor i))) (kind : IteratorKind) (n : Nat)
    {item : Option Value} (hitem : (course.pick h)[i]? = item) :
    (Evaluator.standard.next (.iterator kind r)).run n h =
      .ok item { h with
        cells := h.cells.setIfInBounds r
          (.iterator (if item.isSome then course.cursor (i + 1) else .done)) } := by
  have hstep := course.step hkept (Evaluator.run 999999) i n
  rw [hitem] at hstep
  rw [Evaluator.standard_next]
  cases item with
  | none => exact Evaluator.nextItem_of_none (Heap.cursor_of_cell hc) (course.ends i) hstep
  | some v =>
    rw [← Heap.cursor_of_cell hc] at hstep
    exact Evaluator.nextItem_of_some hstep

theorem withIterator_cells (h : Heap) (c : Cursor) (q : Ref) :
    (h.withIterator c).cells[q]? =
      if q = h.cells.size then some (.iterator c) else h.cells[q]? := Array.getElem?_push

theorem withIterator_set (h : Heap) (c c' : Cursor) :
    { h.withIterator c with
      cells := (h.withIterator c).cells.setIfInBounds h.cells.size (.iterator c') } =
        h.withIterator c' := by
  have hcells : (h.cells.push (.iterator c)).setIfInBounds h.cells.size (.iterator c') =
      h.cells.push (.iterator c') := by
    rw [Array.push_eq_append, Array.push_eq_append, Array.setIfInBounds_append,
      if_neg (Nat.lt_irrefl _), Nat.sub_self]
    rfl
  unfold Heap.withIterator
  rw [hcells]

/-- All items at once, if they are not too many. The induction is on the items that may still be
taken. -/
theorem Course.walk_run {course : Course h} (hwatches : ∀ q, course.watches q → q < h.cells.size)
    (hpick : ∀ h', course.pick h' = course.pick h) (kind : IteratorKind) (n fuel : Nat) :
    ∀ i ≤ (course.pick h).size, ∀ {r : Outcome (Array Value)},
      (Evaluator.standard.walk (.iterator kind h.cells.size)
        (fun items v => return .yield (items.push v)) fuel ((course.pick h).take i)).run n
        (h.withIterator (course.cursor i)) = r →
      (course.pick h).size < i + fuel ∧ r = .ok (course.pick h) (h.withIterator .done) ∨
        i + fuel ≤ (course.pick h).size ∧ ∃ halt h', r = .error halt h' := by
  induction fuel with
  | zero =>
    rintro i hi r rfl
    exact .inr ⟨hi, _, _, rfl⟩
  | succ fuel ih =>
    rintro i hi r hr
    have hcell : (h.withIterator (course.cursor i)).cells[h.cells.size]? =
        some (.iterator (course.cursor i)) := by rw [withIterator_cells, if_pos rfl]
    have hkept : ∀ q, course.watches q →
        (h.withIterator (course.cursor i)).cells[q]? = h.cells[q]? := fun q hq => by
      rw [withIterator_cells, if_neg (Nat.ne_of_lt (hwatches q hq))]
    have hnext := course.next hkept hcell kind n rfl
    rw [withIterator_set, hpick] at hnext
    unfold Evaluator.walk at hr
    change Eval.runOn ((Evaluator.standard.next _).run n _) _ = r at hr
    rw [hnext] at hr
    by_cases hlt : i < (course.pick h).size
    · rw [Array.getElem?_eq_getElem hlt] at hr
      have hpush : ((course.pick h).take i).push (course.pick h)[i] =
          (course.pick h).take (i + 1) := by
        rw [Array.take_eq_extract, Array.push_extract_getElem hlt, Nat.zero_min,
          Array.take_eq_extract]
      change (Evaluator.standard.walk _ _ fuel (((course.pick h).take i).push _)).run n _ = r at hr
      rw [hpush] at hr
      rw [← Nat.succ_add_eq_add_succ]
      exact ih (i + 1) hlt hr
    · rw [Array.getElem?_eq_none (Nat.le_of_not_lt hlt)] at hr
      have htake : (course.pick h).take i = course.pick h :=
        Array.extract_eq_self_of_le (Nat.le_of_not_lt hlt)
      rw [htake] at hr
      exact .inl ⟨by omega, hr.symm⟩

theorem collect_settled {v : Value} {course : Course h} (hv : Suits h v)
    (hc : v.settledCourse? h = some course) (n : Nat) :
    (course.pick h).size < Evaluator.mostItems ∧
        (Evaluator.standard.collect v).run n h = .ok (course.pick h) (h.withIterator .done) ∨
      Evaluator.mostItems ≤ (course.pick h).size ∧
        ∃ halt h', (Evaluator.standard.collect v).run n h = .error halt h' := by
  obtain ⟨kind, hmade⟩ := Value.toIterator_settled hc
  have hcollect : (Evaluator.standard.collect v).run n h =
      (Evaluator.standard.walk (.iterator kind h.cells.size)
        (fun items v => return .yield (items.push v)) Evaluator.mostItems
        ((course.pick h).take 0)).run n (h.withIterator (course.cursor 0)) := by
    rw [Evaluator.collect]
    change Eval.runOn (v.toIterator.run n h) _ = _
    have hnone : (course.pick h).take 0 = #[] := Array.extract_zero
    rw [hmade, hnone]
    rfl
  have hwalk := Course.walk_run (fun q hq => Value.settled_watches hv hc hq)
    (Value.settled_pick hc) kind n Evaluator.mostItems 0 (Nat.zero_le _) rfl
  rw [Nat.zero_add] at hwalk
  rw [hcollect]
  exact hwalk

end Asked

end Stencil
