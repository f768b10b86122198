import Stencil.Proofs.CountedPasses
import Stencil.Proofs.DrawnItems
import Stencil.Proofs.Surroundings

/-!
# Loops that are not asked

Whether a loop counts its passes is decided by a look at its body. A body that asks for `loop` and
does nothing with it makes the same passes, for the same items, as the body without that question.
-/

namespace Stencil

open Render

open Text (Position)

/-- The worlds are the same, but for iterators of the supply. -/
structure World.SameBut (σ : Supply) (w w' : World) : Prop where
  heap : w.heap.SameBut σ w'.heap
  boundary : w'.boundary = w.boundary
  notices : w'.notices = w.notices

/-- An action leaves a supply as it is, and goes the same whatever the iterators of the supply have
come to: it does not ask them. -/
structure Action.Leaves {α : Type} (σ : Supply) (x : Action α) (w : World) : Prop where
  ok : ∀ {a w₁}, x.run w = .ok a w₁ → w.heap.Agrees σ w₁.heap ∧
    ∀ {w'}, w.SameBut σ w' → ∃ w₁', x.run w' = .ok a w₁' ∧ w₁.SameBut σ w₁'
  error : ∀ {stop w₁}, x.run w = .error stop w₁ → ∀ {w'}, w.SameBut σ w' →
    ∃ stop' w₁', x.run w' = .error stop' w₁'

namespace Render

variable {env : Environment} {m : Nat} {e : Entry} {s : Scope} {p q : Position} {target : Code}
  {body : List Node} {n k i : Nat} {c w w₀ : World} {h₀ : Heap} {kind : IteratorKind}

/-- A loop has taken `i` items from an iterator at `n` that was made for it. -/
structure Fresh (reach : Reach) (s : Scope) (p : Position) (target : Code) (body : List Node)
    (kind : IteratorKind) (n : Nat) (course : Course h₀) (w₀ : World) (i : Nat) (c w : World) :
    Prop where
  worlds : (Renaming.past n 1).Worlds c w
  counting : s.Counting c.heap.frames
  cursor : w.heap.cells[n]? = some (.iterator (course.cursor i))
  passes : Passes reach s p target body (.iterator kind n) i w₀ w

section Fresh

variable (course : Course h₀)
  (hkept : ∀ i w,
    Passes (e.reach env Evaluator.standard m) s p target body (.iterator kind n) i w₀ w →
      ∀ q, course.watches q → w.heap.cells[q]? = h₀.cells[q]?)
  (henv : (Renaming.past n 1).Fixes env) (hbody : Node.mention "loop" body = false)

include hkept henv hbody

theorem fresh_accords (hpick : ∀ c w, (Renaming.past n 1).Worlds c w →
      course.pick w.heap = (course.pick c.heap).map (Renaming.past n 1).value)
    (h : Fresh (e.reach env Evaluator.standard m) s p target body kind n course w₀ 0 c w)
    (fuel : Nat) : Accord (Prod.map id (List.map (Renaming.past n 1).value)) (fun _ _ => True)
      ((eachPicked course.pick (itemPass (e.reach env Evaluator.standard m) s p target body) fuel
        (#[], [])).run c)
      ((eachTaken (e.reach env Evaluator.standard m) (.iterator kind n)
        (itemPass (e.reach env Evaluator.standard m) s p target body) fuel (#[], [])).run w) := by
  refine eachTaken_accords (S := Fresh (e.reach env Evaluator.standard m) s p target body kind n
    course w₀) (fun i c w h => ?_) fuel _ h
  have hitem : (course.pick w.heap)[i]? =
      (course.pick c.heap)[i]?.map (Renaming.past n 1).value := by
    rw [hpick c w h.worlds, Array.getElem?_map]
  have hnext := course.next (hkept i w h.passes) h.cursor kind (env.host.calls m) hitem
  generalize (course.pick c.heap)[i]? = item at hnext
  cases item with
  | none => exact .ended (evaluate_ok hnext)
  | some v =>
    let w₁ : World := { w with heap := { w.heap with
      cells := w.heap.cells.setIfInBounds n (.iterator (course.cursor (i + 1))) } }
    have hi : ((e.reach env Evaluator.standard m).evaluate
        ((e.reach env Evaluator.standard m).ev.next (.iterator kind n))).run w =
          .ok (some ((Renaming.past n 1).value v)) w₁ := evaluate_ok hnext
    have hapart : ∀ q, (Renaming.past n 1).cell q ≠ n :=
      Renaming.shifted_apart ⟨Nat.le_refl n, Nat.lt_succ_self n⟩
    have hworlds : (Renaming.past n 1).Worlds c w₁ :=
      ⟨h.worlds.heap.setBeside rfl hapart _, h.worlds.boundary⟩
    have hcell : w₁.heap.cells[n]? = some (.iterator (course.cursor (i + 1))) :=
      (getElem?_written _ h.cursor n).trans (if_pos rfl)
    refine .passed hi ((pass_past henv h.counting hbody hworlds v).imp
      fun out c₁ w₂ _ hp ⟨hworlds₂, hbeside, hgrows⟩ => ?_)
    exact ⟨hworlds₂, h.counting.mono hgrows, hbeside n _ hapart hcell, .more h.passes hi hp⟩

end Fresh

/-- A loop has taken `i` items from an iterator that draws on a supply; `items` are all that it
delivers if nothing else is done. In the other world it has delivered them already. -/
structure Supplied (S : Heap → Prop) (σ : Supply) (reach : Reach) (s : Scope) (p : Position)
    (target : Code) (body : List Node) (it : Value) (items : List Value) (h₁ : Heap) (w₀ : World)
    (i : Nat) (c w : World) : Prop where
  passes : Passes reach s p target body it i w₀ w
  same : w.SameBut σ c
  rest : ∃ h, Delivering it reach.calls (items.drop i) h h₁ ∧ S h ∧ h.Agrees σ w.heap

section Supplied

variable {S : Heap → Prop} {σ : Supply} {reach : Reach} {it : Value} {items : List Value}
  {h₁ : Heap} (hev : reach.ev = Evaluator.standard)
  (hit : Draws S σ (fun _ => True) (Evaluator.standard.next it))
  (hleaves : ∀ i v w₁ w₂, Passes reach s p target body it i w₀ w₁ →
    (reach.evaluate (reach.ev.next it)).run w₁ = .ok (some v) w₂ →
      (itemPass reach s p target body v).Leaves σ w₂)

include hev hit hleaves

theorem supplied_accords (h : Supplied S σ reach s p target body it items h₁ w₀ 0 c w)
    (n fuel : Nat) : Accord (Prod.map id (List.map (Renaming.past n 0).value)) (fun _ _ => True)
      ((eachPicked (fun _ => items.toArray) (itemPass reach s p target body) fuel (#[], [])).run c)
      ((eachTaken reach it (itemPass reach s p target body) fuel (#[], [])).run w) := by
  refine eachTaken_accords (S := Supplied S σ reach s p target body it items h₁ w₀)
    (fun i c w h => ?_) fuel _ h
  obtain ⟨d, hd, hsupplies, hagrees⟩ := h.rest
  rw [List.getElem?_toArray, ← List.head?_drop]
  generalize hrest : items.drop i = rest at hd
  cases hd with
  | ended hn =>
    obtain ⟨h', hn', -⟩ := next_agrees hit hsupplies hagrees hn
    exact .ended (evaluate_ok (by rw [hev]; exact hn'))
  | @more v vs _ d₁ _ hn hd₁ =>
    obtain ⟨h', hn', hdrew⟩ := next_agrees hit hsupplies hagrees hn
    have hi : (reach.evaluate (reach.ev.next it)).run w = .ok (some v) { w with heap := h' } :=
      evaluate_ok (by rw [hev]; exact hn')
    have hsame : World.SameBut σ { w with heap := h' } c :=
      ⟨hdrew.right.symm.trans h.same.heap, h.same.boundary, h.same.notices⟩
    have hvs : vs = items.drop (i + 1) := by rw [← List.tail_drop, hrest, List.tail_cons]
    rw [← Renaming.past_zero n v] at hi
    refine .passed hi ?_
    rw [Renaming.past_zero]
    have hleaves := hleaves i _ w _ h.passes hi
    rw [Renaming.past_zero] at hleaves
    cases hp : (itemPass reach s p target body v).run { w with heap := h' } with
    | error stop w₂ =>
      obtain ⟨stop', c₁, hc⟩ := hleaves.error hp hsame
      rw [hc]
      exact .error
    | ok out w₂ =>
      obtain ⟨hkept, hothers⟩ := hleaves.ok hp
      obtain ⟨c₁, hc, hsame₁⟩ := hothers hsame
      rw [hc]
      refine .ok ⟨.more h.passes hi (by rw [Renaming.past_zero]; exact hp), hsame₁,
        d₁, hvs ▸ hd₁, hdrew.supplies, hdrew.agrees.trans hkept⟩

/-- A loop fails where its items cannot all be collected. -/
theorem supplied_fails (hpasses : w = w₀) (hsupplies : S w.heap) {halt : Halt}
    (hfails : (Evaluator.standard.drain it).run reach.calls w.heap = .error halt h₁) :
    ∃ stop w₁, (eachTaken reach it (itemPass reach s p target body) Evaluator.mostItems
      (#[], [])).run w = .error stop w₁ := by
  subst hpasses
  let T (i : Nat) (w₁ : World) : Prop := Passes reach s p target body it i w w₁ ∧
    ∃ (d : Heap) (done : Array Value), S d ∧ d.Agrees σ w₁.heap ∧
      (Evaluator.standard.walk it (fun items v => return .yield (items.push v))
        (Evaluator.mostItems - i) done).run reach.calls d = .error halt h₁
  refine eachTaken_fails (S := T) Evaluator.mostItems (fun i w₁ hi hs => ?_) _
    (k := 0) ⟨.none, w.heap, #[], hsupplies, .refl _, hfails⟩ (Nat.zero_add _)
  obtain ⟨hpasses, d, done, hsupplies, hagrees, hwalk⟩ := hs
  obtain ⟨fuel, hfuel⟩ : ∃ fuel, Evaluator.mostItems - i = fuel + 1 :=
    ⟨Evaluator.mostItems - i - 1, by omega⟩
  rw [hfuel] at hwalk
  change Eval.runOn ((Evaluator.standard.next it).run reach.calls d) _ = _ at hwalk
  cases hn : (Evaluator.standard.next it).run reach.calls d with
  | error halt' d₁ =>
    obtain ⟨h', hn'⟩ := next_agrees_error hit hsupplies hagrees hn
    exact .inl ⟨_, _, evaluate_error (by rw [hev]; exact hn')⟩
  | ok item d₁ =>
    obtain ⟨h', hn', hdrew⟩ := next_agrees hit hsupplies hagrees hn
    rw [hn] at hwalk
    cases item with
    | none => cases hwalk
    | some v =>
      have htaken : (reach.evaluate (reach.ev.next it)).run w₁ =
          .ok (some v) { w₁ with heap := h' } := evaluate_ok (by rw [hev]; exact hn')
      refine .inr ⟨v, _, htaken, fun out w₂ hp => ⟨.more hpasses htaken hp, d₁, done.push v,
        hdrew.supplies, ?_, ?_⟩⟩
      · exact hdrew.agrees.trans ((hleaves i v w₁ _ hpasses htaken).ok hp).1
      · rw [show Evaluator.mostItems - (i + 1) = fuel by omega]
        exact hwalk

end Supplied

/-- Both loops make their passes for the same items, up to where cells have come to lie of which
there were `n` before, and give the same output, or both fail. -/
inductive Concur (n : Nat) : EStateM.Result Stop World (Output × List Value) →
    EStateM.Result Stop World (Output × List Value) → Prop
  | ok {out : Output} {items : List Value} {w w' : World} (ρ : Renaming)
      (hρ : ∀ r < n, ρ.cell r = r) :
      Concur n (.ok (out, items) w) (.ok (out, items.map ρ.value) w')
  | error {s s' : Stop} {w w' : World} : Concur n (.error s w) (.error s' w')

/-- So it is where both loops agree with passes for what is picked. -/
theorem Concur.of_accords {j : Nat} {R R' : World → World → Prop}
    {r₀ r r' : EStateM.Result Stop World (Output × List Value)}
    (h : Accord (Prod.map id (List.map (Renaming.past n j).value)) R r₀ r)
    (h' : Accord (Prod.map id (List.map (Renaming.past n (j + k)).value)) R' r₀ r') :
    Concur n r r' := by
  rcases h.both h' with ⟨⟨out, items⟩, w, w', rfl, rfl⟩ | ⟨⟨s, w, rfl⟩, s', w', rfl⟩
  · have hitems : items.map (Renaming.past n (j + k)).value =
        (items.map (Renaming.past n j).value).map (Renaming.past (n + j) k).value := by
      rw [List.map_map]
      exact List.map_congr_left fun v _ => (Renaming.past_past n j k v).symm
    change Concur n (.ok (out, items.map _) w) (.ok (out, items.map _) w')
    rw [hitems]
    exact .ok _ fun r hr => Renaming.shifted_of_lt k (Nat.lt_of_lt_of_le hr (Nat.le_add_right n j))
  · exact .error

/-- A loop with a body that does not mention `loop` is come to, with nothing around it that has to
do with a loop at its position. -/
structure Unasked (env : Environment) (e : Entry) (s : Scope) (p : Position) (body : List Node)
    (w : World) : Prop where
  sections : Sections.From (fun _ => True) e.sections
  locals : s.locals = []
  outer : ∀ l ∈ s.loops, l.position ≠ p
  silent : Node.mention "loop" body = false
  sound : w.heap.IsSound
  env : Suits w.heap env
  counting : s.Counting w.heap.frames
  quiet : w.heap.Twin (.muted True s.frame p) w.heap

variable {v : Value}

/-- A loop that does not count takes its items from an iterator. -/
theorem loopOver_plain {it : Value} {h₁ : Heap} (hsilent : Node.mention "loop" body = false)
    (hit : v.toIterator.run (env.host.calls m) w.heap = .ok it h₁) :
    (loopOver (e.reach env Evaluator.standard m) s p target body v).run w =
      (eachTaken (e.reach env Evaluator.standard m) it
        (itemPass (e.reach env Evaluator.standard m) s p target body) Evaluator.mostItems
        (#[], [])).run { w with heap := h₁ } := by
  have hstart : ((e.reach env Evaluator.standard m).evaluate (startLoop Evaluator.standard s
      (loopScope p target body) (Node.mention "loop" body) v)).run w =
        .ok it { w with heap := h₁ } := by
    refine evaluate_ok ?_
    rw [hsilent]
    exact hit
  exact Action.bind_of_ok hstart _

/-- A loop that counts takes them from an iterator of its own. -/
theorem loopOver_asked {items : Ref} {h₁ : Heap}
    (hlist : (materializedBy Evaluator.standard v).run (env.host.calls m) w.heap = .ok items h₁) :
    (loopOver (e.reach env Evaluator.standard m) s p target (body ++ [.ifLoop q]) v).run w =
      (eachTaken (e.reach env Evaluator.standard m) (.iterator .generator (h₁.cells.size + 1))
        (itemPass (e.reach env Evaluator.standard m) s p target (body ++ [.ifLoop q]))
        Evaluator.mostItems (#[], [])).run
        { w with
          heap := (h₁.withLoop s items).named s (askedScope p target body q) h₁.cells.size } := by
  have hstart : ((e.reach env Evaluator.standard m).evaluate (startLoop Evaluator.standard s
      (askedScope p target body q) (Node.mention "loop" (body ++ [.ifLoop q])) v)).run w =
        .ok (.iterator .generator (h₁.cells.size + 1)) { w with
          heap := (h₁.withLoop s items).named s (askedScope p target body q) h₁.cells.size } := by
    refine evaluate_ok ?_
    rw [Node.mention_ifLoop]
    refine (startLoop_run _ _ _ _ _ _).trans ?_
    rw [show (materializedBy Evaluator.standard v).run (e.reach env Evaluator.standard m).calls
      w.heap = _ from hlist]
    rfl
  exact Action.bind_of_ok hstart _

/-- While a loop over a value goes on, certain cells are as they were before each item that is taken
from the iterator made for it. -/
def Keeps (reach : Reach) (s : Scope) (p : Position) (target : Code) (body : List Node) (v : Value)
    (watches : Ref → Prop) (w : World) : Prop :=
  ∀ it h₁ i w', v.toIterator.run reach.calls w.heap = .ok it h₁ →
    Passes reach s p target body it i { w with heap := h₁ } w' →
    ∀ r, watches r → w'.heap.cells[r]? = w.heap.cells[r]?

theorem materializedBy_other {ev : Evaluator} (hv : ∀ r, v ≠ .list r) :
    materializedBy ev v = (do Eval.allocate (.list (← ev.collect v))) := by
  cases v with
  | list r => exact absurd rfl (hv r)
  | _ => rfl

theorem materializedBy_ok {calls : Nat} {h h₁ : Heap} {items : Array Value} (hv : ∀ r, v ≠ .list r)
    (hcollect : (Evaluator.standard.collect v).run calls h = .ok items h₁) :
    (materializedBy Evaluator.standard v).run calls h =
      .ok h₁.cells.size { h₁ with cells := h₁.cells.push (.list items) } := by
  rw [materializedBy_other hv]
  change Eval.runOn ((Evaluator.standard.collect v).run calls h) _ = _
  rw [hcollect]
  rfl

/-- A loop that counts fails where the items cannot be collected, and concurs with one that fails. -/
theorem Concur.of_uncollected (hv : ∀ r, v ≠ .list r) {halt : Halt} {h₁ : Heap}
    (hcollect : (Evaluator.standard.collect v).run (env.host.calls m) w.heap = .error halt h₁)
    {r : EStateM.Result Stop World (Output × List Value)} (hr : ∃ stop w₁, r = .error stop w₁) :
    Concur n r ((loopOver (e.reach env Evaluator.standard m) s p target (body ++ [.ifLoop q])
      v).run w) := by
  obtain ⟨stop, w₁, rfl⟩ := hr
  have hlist : (materializedBy Evaluator.standard v).run (env.host.calls m) w.heap =
      .error halt h₁ := by
    rw [materializedBy_other hv]
    change Eval.runOn ((Evaluator.standard.collect v).run _ _) _ = _
    rw [hcollect]
    rfl
  have hstart : ((e.reach env Evaluator.standard m).evaluate (startLoop Evaluator.standard s
      (askedScope p target body q) (Node.mention "loop" (body ++ [.ifLoop q])) v)).run w =
        .error (Action.stopOf w.boundary halt) { w with heap := h₁ } := by
    refine evaluate_error ?_
    rw [Node.mention_ifLoop]
    refine (startLoop_run _ _ _ _ _ _).trans ?_
    change Eval.runOn ((materializedBy Evaluator.standard v).run (env.host.calls m) w.heap) _ = _
    rw [hlist]
    rfl
  have hasked : (loopOver (e.reach env Evaluator.standard m) s p target (body ++ [.ifLoop q])
      v).run w = .error (Action.stopOf w.boundary halt) { w with heap := h₁ } :=
    Action.bind_of_error hstart _
  rw [hasked]
  exact .error

namespace Unasked

variable (hu : Unasked env e s p body w)

include hu

theorem fixes (j : Nat) : (Renaming.past w.heap.cells.size j).Fixes env :=
  Renaming.past_fixes hu.env j

/-- What is made for a loop that does not count is its iterator. -/
theorem fresh {course : Course h₀} (target : Code) (kind : IteratorKind) :
    Fresh (e.reach env Evaluator.standard m) s p target body kind w.heap.cells.size course
      { w with heap := w.heap.withIterator (course.cursor 0) } 0 w
      { w with heap := w.heap.withIterator (course.cursor 0) } where
  worlds := by
    refine ⟨?_, ?_⟩
    · have hcarries := Renaming.past_carries hu.sound #[.iterator (course.cursor 0)]
      rwa [← Array.push_eq_append] at hcarries
    · dsimp only
      cases w.boundary with
      | none => exact .none
      | some b => exact .some (.refl b)
  counting := hu.counting
  cursor := by
    dsimp only
    rw [withIterator_cells, if_pos rfl]
  passes := .none

theorem over_list {r : Ref} (hr : r < w.heap.cells.size) :
    Concur w.heap.cells.size
      ((loopOver (e.reach env Evaluator.standard m) s p target body (.list r)).run w)
      ((loopOver (e.reach env Evaluator.standard m) s p target (body ++ [.ifLoop q])
        (.list r)).run w) := by
  have hlist : (materializedBy Evaluator.standard (.list r)).run (env.host.calls m) w.heap =
      .ok r w.heap := rfl
  rw [loopOver_plain hu.silent (Value.toIterator_list r _ _), loopOver_asked hlist]
  have hpick (c w' : World) (hw : (Renaming.past w.heap.cells.size 1).Worlds c w') :
      w'.heap.listItems r =
        (c.heap.listItems r).map (Renaming.past w.heap.cells.size 1).value := by
    rw [← hw.heap.listItems]
    exact congrArg w'.heap.listItems (Renaming.shifted_of_lt 1 hr).symm
  have hplain := fresh_accords (.list w.heap r) (fun _ _ _ _ hq => hq.elim) (hu.fixes 1)
    hu.silent hpick (hu.fresh (m := m) target .list) Evaluator.mostItems
  have hrunning : Running s (askedScope p target body q) w.heap.cells.size (0 + 2)
      w.heap.cells.size r (fun h => h.listItems r) 0 w _ :=
    running_start #[] hu.sound hu.quiet hu.counting nofun (by simp) (.shared hr)
  have hasked := counted_accords (m := m) (Nat.le_refl _) (by omega) hu.sections (hu.fixes _)
    hu.locals hu.outer hu.silent hrunning Evaluator.mostItems
  exact .of_accords (j := 1) (k := 1) hplain hasked

theorem over_settled {course : Course w.heap} (hv : Suits w.heap v)
    (hc : v.settledCourse? w.heap = some course)
    (hkept : Keeps (e.reach env Evaluator.standard m) s p target body v course.watches w) :
    Concur w.heap.cells.size
      ((loopOver (e.reach env Evaluator.standard m) s p target body v).run w)
      ((loopOver (e.reach env Evaluator.standard m) s p target (body ++ [.ifLoop q]) v).run w) := by
  obtain ⟨kind, hmade⟩ := Value.toIterator_settled hc
  have hsuits := Value.settled_suits hu.sound hv hc
  have hfixed (j : Nat) : (course.pick w.heap).map (Renaming.past w.heap.cells.size j).value =
      course.pick w.heap :=
    Renaming.mapArray_fixed (fun _ ha => Renaming.value_fixed ha) (Renaming.past_fixes hsuits j)
  have hconst : course.pick = fun _ => course.pick w.heap := funext (Value.settled_pick hc)
  have hlist : ∀ r, v ≠ .list r := by
    rintro r rfl
    cases hc
  rw [loopOver_plain hu.silent (hmade _)]
  have hplain := fresh_accords course (fun i w' hp => hkept _ _ i w' (hmade _) hp)
    (hu.fixes 1) hu.silent (fun c w' _ => by rw [hconst]; exact (hfixed 1).symm)
    (hu.fresh (m := m) target kind) Evaluator.mostItems
  rcases collect_settled hv hc (env.host.calls m) with ⟨-, hcollect⟩ | ⟨hmany, halt, h', hcollect⟩
  · rw [loopOver_asked (materializedBy_ok hlist hcollect)]
    have hrunning := running_settled (l := askedScope p target body q)
      #[.iterator .done] hu.sound hu.quiet hu.counting
      (by rintro cell hcell; cases Array.mem_singleton.mp hcell; trivial) (hfixed 4)
      (h := w.heap.withIterator .done) (by rw [Heap.withIterator, Array.push_eq_append]) rfl
    rw [hconst] at hplain
    refine .of_accords (j := 1) (k := 3) hplain (counted_accords ?_ ?_ hu.sections (hu.fixes _)
      hu.locals hu.outer hu.silent hrunning Evaluator.mostItems)
    · simp only [Heap.withIterator, Array.size_push]
      omega
    · change _ < w.heap.cells.size + 4
      simp only [Heap.withIterator, Array.size_push]
      omega
  · obtain ⟨stop, c', hpicked⟩ : ∃ stop c', (eachPicked course.pick
        (itemPass (e.reach env Evaluator.standard m) s p target body) Evaluator.mostItems
        (#[], [])).run w = .error stop c' :=
      eachPicked_fails (fun h => (Value.settled_pick hc h).symm ▸ hmany) _ _
        (Nat.le_of_eq (Nat.zero_add _))
    rw [hpicked] at hplain
    exact .of_uncollected hlist hcollect hplain.fails

omit hu in
theorem over_uniterable (hlist : ∀ r, v ≠ .list r) {halt : Halt} {h₁ : Heap}
    (hfails : v.toIterator.run (env.host.calls m) w.heap = .error halt h₁)
    (hsilent : Node.mention "loop" body = false) :
    Concur n ((loopOver (e.reach env Evaluator.standard m) s p target body v).run w)
      ((loopOver (e.reach env Evaluator.standard m) s p target (body ++ [.ifLoop q]) v).run w) := by
  have hcollect : (Evaluator.standard.collect v).run (env.host.calls m) w.heap = .error halt h₁ := by
    change Eval.runOn (v.toIterator.run _ _) _ = _
    rw [hfails]
    rfl
  have hstart : ((e.reach env Evaluator.standard m).evaluate (startLoop Evaluator.standard s
      (loopScope p target body) (Node.mention "loop" body) v)).run w =
        .error (Action.stopOf w.boundary halt) { w with heap := h₁ } := by
    rw [hsilent]
    exact evaluate_error hfails
  exact .of_uncollected hlist hcollect ⟨_, _, Action.bind_of_error hstart _⟩

/-- What surrounds the loop stays when its items are collected ahead. -/
theorem collected (hv : Suits w.heap v) {items : Array Value} {h₁ : Heap}
    (hcollect : (Evaluator.standard.collect v).run (env.host.calls m) w.heap = .ok items h₁) :
    Unasked env e s p body { w with heap := h₁ } ∧ Suits h₁ items := by
  let l := Licence.within w.heap True w.heap.frames.size fun _ _ => False
  have hl : l.Allows True env := Licence.within_allows hu.env
  have hev : Evaluator.standard.IsSafe l := (standard_runsSafely env).evaluates hl
  have hends := Safe.collect hev hv hu.sound (.refl _ _) (env.host.calls m)
  have htwin := Evaluator.standard.collect_twin (standard_muted (f := s.frame) (p := p)) v
    (env.host.calls m) w.heap w.heap hu.quiet (.refl _)
  rw [hcollect] at hends htwin
  cases hends with
  | ok hled hs hitems =>
    cases htwin with
    | ok ht hg _ =>
      exact ⟨⟨hu.sections, hu.locals, hu.outer, hu.silent, hs, hu.env.after hled,
        hu.counting.mono hg, ht⟩, hitems⟩

theorem over_iterator {S : Heap → Prop} {σ : Supply} {kind : IteratorKind} {r : Ref}
    (hdraws : Draws S σ (fun _ => True) (Evaluator.standard.next (.iterator kind r)))
    (hv : Suits w.heap (Value.iterator kind r)) (hsupplies : S w.heap)
    (hleaves : ∀ i v w₁ w₂,
      Passes (e.reach env Evaluator.standard m) s p target body (.iterator kind r) i w w₁ →
      ((e.reach env Evaluator.standard m).evaluate
        (Evaluator.standard.next (.iterator kind r))).run w₁ = .ok (some v) w₂ →
      (itemPass (e.reach env Evaluator.standard m) s p target body v).Leaves σ w₂) :
    Concur w.heap.cells.size
      ((loopOver (e.reach env Evaluator.standard m) s p target body (.iterator kind r)).run w)
      ((loopOver (e.reach env Evaluator.standard m) s p target (body ++ [.ifLoop q])
        (.iterator kind r)).run w) := by
  have hlist : ∀ r', Value.iterator kind r ≠ .list r' := nofun
  by_cases hasync : kind = .asyncGenerator
  · subst hasync
    exact over_uniterable hlist rfl hu.silent
  · have hmade : (Value.iterator kind r).toIterator.run (env.host.calls m) w.heap =
        .ok (.iterator kind r) w.heap := by
      cases kind <;> first | rfl | exact absurd rfl hasync
    have hcollect : (Evaluator.standard.collect (.iterator kind r)).run (env.host.calls m) w.heap =
        (Evaluator.standard.drain (.iterator kind r)).run (env.host.calls m) w.heap := by
      change Eval.runOn ((Value.iterator kind r).toIterator.run _ _) _ = _
      rw [hmade]
      rfl
    rw [loopOver_plain hu.silent hmade]
    cases hdrain : (Evaluator.standard.drain (.iterator kind r)).run (env.host.calls m) w.heap with
    | error halt h₁ =>
      rw [hdrain] at hcollect
      exact .of_uncollected hlist hcollect (supplied_fails rfl hdraws hleaves rfl hsupplies hdrain)
    | ok items h₁ =>
      rw [hdrain] at hcollect
      obtain ⟨vs, rfl, hd⟩ := delivering_of_walk _ hdrain
      rw [Array.empty_append] at hcollect
      have hsame := hd.sameBut hdraws hsupplies
      obtain ⟨hu₁, hitems⟩ := hu.collected hv hcollect
      have hfixed : vs.toArray.map (Renaming.past h₁.cells.size 3).value = vs.toArray :=
        Renaming.mapArray_fixed (fun _ ha => Renaming.value_fixed ha)
          (Renaming.past_fixes hitems 3)
      have hsupplied : Supplied S σ (e.reach env Evaluator.standard m) s p target body
          (.iterator kind r) vs h₁ w 0 { w with heap := h₁ } w :=
        ⟨.none, ⟨hsame, rfl, rfl⟩, w.heap, hd, hsupplies, .refl _⟩
      have hplain := supplied_accords rfl hdraws hleaves hsupplied h₁.cells.size
        Evaluator.mostItems
      rw [loopOver_asked (materializedBy_ok hlist hcollect), ← hsame.cells_size]
      have hrunning := running_settled (l := askedScope p target body q) #[] hu₁.sound
        hu₁.quiet hu₁.counting nofun hfixed (h := h₁) (by simp) rfl
      refine .of_accords (j := 0) (k := 3) hplain (counted_accords ?_ ?_ hu₁.sections
        (hu₁.fixes _) hu₁.locals hu₁.outer hu₁.silent hrunning Evaluator.mostItems)
      · simp only [Array.size_push]
        omega
      · change _ < h₁.cells.size + 3
        simp only [Array.size_push]
        omega

end Unasked

end Render

end Stencil
