import Stencil.Proofs.SharedLists

/-!
# What iterators draw from

An iterator that runs no code of a template takes its items from other iterators and from lists,
sets and dictionaries. What it delivers depends on nothing else, and asking it changes nothing but
iterators.
-/

namespace Stencil

structure Supply where
  iterators : Ref → Prop
  stores : Ref → Prop
  /-- Frames that only generators among the iterators have to do with. -/
  frames : Ref → Prop := fun _ => False

variable {σ : Supply} {S : Heap → Prop} {h h' h₁ h₁' : Heap}

def Value.IsIn (σ : Supply) (v : Value) : Prop := ∀ kind r, v = .iterator kind r → σ.iterators r

/-- All items come from the supply. A comprehension would run code, and an iterator over a loop
would move that. -/
def Cursor.DrawsOn (σ : Supply) : Cursor → Prop
  | .done | .items _ | .range _ _ _ => True
  | .list r _ | .listBackward r _ | .set r _ _ | .dict _ r _ _ | .dictBackward _ r _ _ => σ.stores r
  | .enumerate inner _ => inner.IsIn σ
  | .zip inner _ => ∀ it ∈ inner, it.IsIn σ
  | .subscripts v _ => ∃ r, v = .row r ∧ σ.stores r
  | .comprehension _ | .loop _ _ => False

namespace Heap

/-- The iterators of the supply are there, and they draw on nothing else. -/
def Supplies (σ : Supply) (h : Heap) : Prop :=
  ∀ r, σ.iterators r → ∃ c, h.cells[r]? = some (.iterator c) ∧ c.DrawsOn σ

/-- The supply is the same in both heaps. -/
structure Agrees (σ : Supply) (h h' : Heap) : Prop where
  cells : ∀ r, σ.iterators r ∨ σ.stores r → h'.cells[r]? = h.cells[r]?
  frames : ∀ r, σ.frames r → h'.frames[r]? = h.frames[r]?

theorem Agrees.refl (h : Heap) : h.Agrees σ h := ⟨fun _ _ => rfl, fun _ _ => rfl⟩

theorem Agrees.trans {h'' : Heap} (ha : h.Agrees σ h') (ha' : h'.Agrees σ h'') : h.Agrees σ h'' :=
  ⟨fun r hr => (ha'.cells r hr).trans (ha.cells r hr),
    fun r hr => (ha'.frames r hr).trans (ha.frames r hr)⟩

/-- The heaps are the same, but for iterators of the supply and their frames. -/
structure SameBut (σ : Supply) (h h' : Heap) : Prop where
  cells : ∀ r, h'.cells[r]? = h.cells[r]? ∨
    σ.iterators r ∧ ∃ c c', h.cells[r]? = some (.iterator c) ∧ h'.cells[r]? = some (.iterator c')
  size_eq : h'.frames.size = h.frames.size
  frames : ∀ r, ¬ σ.frames r → h'.frames[r]? = h.frames[r]?
  data : h'.data = h.data

theorem SameBut.refl (h : Heap) : h.SameBut σ h := ⟨fun _ => .inl rfl, rfl, fun _ _ => rfl, rfl⟩

theorem SameBut.symm (hs : h.SameBut σ h') : h'.SameBut σ h where
  cells r := (hs.cells r).imp Eq.symm fun ⟨hr, c, c', hc, hc'⟩ => ⟨hr, c', c, hc', hc⟩
  size_eq := hs.size_eq.symm
  frames r hr := (hs.frames r hr).symm
  data := hs.data.symm

theorem SameBut.trans {h'' : Heap} (hs : h.SameBut σ h') (hs' : h'.SameBut σ h'') :
    h.SameBut σ h'' where
  cells r := by
    rcases hs.cells r with heq | ⟨hr, c, c', hc, hc'⟩
    · rcases hs'.cells r with heq' | ⟨hr, c, c', hc, hc'⟩
      · exact .inl (heq'.trans heq)
      · exact .inr ⟨hr, c, c', heq ▸ hc, hc'⟩
    · rcases hs'.cells r with heq' | ⟨_, d, d', hd, hd'⟩
      · exact .inr ⟨hr, c, c', hc, heq'.trans hc'⟩
      · exact .inr ⟨hr, c, d', hc, hd'⟩
  size_eq := hs'.size_eq.trans hs.size_eq
  frames r hr := (hs'.frames r hr).trans (hs.frames r hr)
  data := hs'.data.trans hs.data

theorem SameBut.cells_size (hs : h.SameBut σ h') : h'.cells.size = h.cells.size := by
  have hiff (r : Ref) : h'.cells.size ≤ r ↔ h.cells.size ≤ r := by
    rw [← Array.getElem?_eq_none_iff, ← Array.getElem?_eq_none_iff]
    rcases hs.cells r with heq | ⟨-, c, c', hc, hc'⟩
    · rw [heq]
    · rw [hc, hc']
      exact iff_of_false nofun nofun
  exact Nat.le_antisymm ((hiff _).mpr (Nat.le_refl _)) ((hiff _).mp (Nat.le_refl _))

end Heap

/-- What two heaps that agree on the supply have become. -/
structure Drew (S : Heap → Prop) (σ : Supply) (h h' h₁ h₁' : Heap) : Prop where
  agrees : h₁.Agrees σ h₁'
  supplies : S h₁
  left : h.SameBut σ h₁
  right : h'.SameBut σ h₁'

theorem Drew.refl (hs : S h) (ha : h.Agrees σ h') : Drew S σ h h' h h' :=
  ⟨ha, hs, .refl _, .refl _⟩

theorem Drew.trans {h₂ h₂' : Heap} (hd : Drew S σ h h' h₁ h₁') (hd' : Drew S σ h₁ h₁' h₂ h₂') :
    Drew S σ h h' h₂ h₂' :=
  ⟨hd'.agrees, hd'.supplies, hd.left.trans hd'.left, hd.right.trans hd'.right⟩

inductive Draws.Ends {α : Type} (S : Heap → Prop) (σ : Supply) (P : α → Prop) (h h' : Heap) :
    Outcome α → Outcome α → Prop
  | ok {a : α} {h₁ h₁' : Heap} (hd : Drew S σ h h' h₁ h₁') (ha : P a) :
      Ends S σ P h h' (.ok a h₁) (.ok a h₁')
  | error {halt : Halt} {h₁ h₁' : Heap} (hd : Drew S σ h h' h₁ h₁') :
      Ends S σ P h h' (.error halt h₁) (.error halt h₁')

/-- On heaps that agree on the supply, which is in such a state, the evaluation ends alike. It
changes nothing but iterators of the supply, and leaves the supply in such a state. -/
def Draws {α : Type} (S : Heap → Prop) (σ : Supply) (P : α → Prop) (x : Eval α) : Prop :=
  ∀ n h h', S h → h.Agrees σ h' → Draws.Ends S σ P h h' (x.run n h) (x.run n h')

namespace Draws

variable {α β : Type} {P : α → Prop} {Q : β → Prop} {x : Eval α}

theorem pure {a : α} (ha : P a) : Draws S σ P (Pure.pure a) :=
  fun _ _ _ hs hagrees => .ok (.refl hs hagrees) ha

theorem throw (halt : Halt) : Draws S σ P (MonadExcept.throw halt : Eval α) :=
  fun _ _ _ hs hagrees => .error (.refl hs hagrees)

theorem Ends.after {h₂ h₂' : Heap} {r r' : Outcome β} (hd : Drew S σ h h' h₂ h₂')
    (hr : Ends S σ Q h₂ h₂' r r') : Ends S σ Q h h' r r' := by
  cases hr with
  | ok hd' hq => exact .ok (hd.trans hd') hq
  | error hd' => exact .error (hd.trans hd')

theorem bind {f : α → Eval β} (hx : Draws S σ P x) (hf : ∀ a, P a → Draws S σ Q (f a)) :
    Draws S σ Q (x >>= f) := by
  intro n h h' hs ha
  have hends := hx n h h' hs ha
  change Ends S σ Q h h' (Eval.runOn (x.run n h) _) (Eval.runOn (x.run n h') _)
  generalize x.run n h = r, x.run n h' = r' at hends ⊢
  cases hends with
  | error hd => exact .error hd
  | @ok a h₁ h₁' hd hp => exact (hf a hp n h₁ h₁' hd.supplies hd.agrees).after hd

theorem get {f : Heap → Eval β} (hsame : ∀ h h', h.Agrees σ h' → f h' = f h)
    (hf : ∀ h, S h → Draws S σ Q (f h)) : Draws S σ Q (MonadState.get >>= f) := by
  intro n h h' hs ha
  have hends := hf h hs n h h' hs ha
  change Ends S σ Q h h' ((f h).run n h) ((f h').run n h')
  rwa [hsame h h' ha]

theorem fault (f : Fault) : Draws S σ P (Eval.fault f : Eval α) := throw _

theorem tryCatch {f : Halt → Eval α} (hx : Draws S σ P x) (hf : ∀ halt, Draws S σ P (f halt)) :
    Draws S σ P (MonadExcept.tryCatch x f) := by
  intro n h h' hs ha
  have hends := hx n h h' hs ha
  change Ends S σ P h h' (Eval.handled (x.run n h) fun halt => (f halt).run n)
    (Eval.handled (x.run n h') fun halt => (f halt).run n)
  generalize x.run n h = r, x.run n h' = r' at hends ⊢
  cases hends with
  | ok hd hp => exact .ok hd hp
  | @error halt h₁ h₁' hd =>
    unfold Eval.handled
    dsimp only
    split
    · exact .error hd
    · exact (hf halt n h₁ h₁' hd.supplies hd.agrees).after hd

theorem write {r : Ref} {c : Cursor} (hr : σ.iterators r) (hc : c.DrawsOn σ) :
    Draws (Heap.Supplies σ) σ (fun _ => True) (Eval.write r (.iterator c)) := by
  intro n h h' hs ha
  obtain ⟨old, hold, -⟩ := hs r hr
  have hold' := (ha.cells r (.inl hr)).trans hold
  have hget := getElem?_written h (c := .iterator c) hold
  have hget' := getElem?_written h' (c := .iterator c) hold'
  have hbut {g : Heap} (hg : g.cells[r]? = some (.iterator old)) :
      g.SameBut σ { g with cells := g.cells.setIfInBounds r (.iterator c) } := by
    refine ⟨fun q => ?_, rfl, fun _ _ => rfl, rfl⟩
    dsimp only
    rw [getElem?_written g hg]
    by_cases hq : r = q
    · subst hq
      exact .inr ⟨hr, old, c, hg, if_pos rfl⟩
    · exact .inl (if_neg hq)
  refine .ok ⟨⟨fun q hq => ?_, ha.frames⟩, fun q hq => ?_, hbut hold, hbut hold'⟩ trivial
  · dsimp only
    rw [hget, hget']
    split
    · rfl
    · exact ha.cells q hq
  · dsimp only
    rw [hget]
    split
    · exact ⟨c, rfl, hc⟩
    · exact hs q hq

end Draws

namespace Heap.Agrees

variable (ha : h.Agrees σ h') {r : Ref}

include ha

theorem listItems (hr : σ.stores r) : h'.listItems r = h.listItems r := by
  unfold Heap.listItems
  rw [ha.cells r (.inr hr)]

theorem dictEntries (hr : σ.stores r) : h'.dictEntries r = h.dictEntries r := by
  unfold Heap.dictEntries
  rw [ha.cells r (.inr hr)]

theorem setItems (hr : σ.stores r) : h'.setItems r = h.setItems r := by
  unfold Heap.setItems
  rw [ha.cells r (.inr hr)]

theorem cursor (hr : σ.iterators r) : h'.cursor r = h.cursor r := by
  unfold Heap.cursor
  rw [ha.cells r (.inl hr)]

end Heap.Agrees

namespace Value

theorem equal_int (h : Heap) (v : Value) (i : Int) : equal h v (.int i) =
    match v.number? with
    | some m => .ok (m.equal (.int i))
    | Option.none => .ok (same v (.int i)) := by
  have hsucc : equal h v (.int i) = equalWithin h (599 + 1) v (.int i) := rfl
  rw [hsucc, equalWithin]
  unfold equalBy
  cases v with
  | view kind r => cases kind <;> rfl
  | _ => rfl

theorem lookupKey?_int (h h' : Heap) (entries : Array (Value × Value)) (i : Int) :
    lookupKey? h' entries (.int i) = lookupKey? h entries (.int i) := by
  have hsearch (keys : List Value) (j : Nat) :
      indexOfKey.search h' (.int i) j keys = indexOfKey.search h (.int i) j keys := by
    induction keys generalizing j with
    | nil => rfl
    | cons k keys ih =>
      unfold indexOfKey.search
      rw [alike, alike, equal_int, equal_int]
      exact bind_congr fun found => by rw [ih]
  unfold lookupKey? indexOfKey
  rw [hsearch]

theorem written_int (h : Heap) (i : Int) : written h (.int i) = integerText i := by
  have hsucc : deepestValue = 599 + 1 := rfl
  rw [written, hsucc, writtenWithin, writtenBy]

theorem missingKey_int (h h' : Heap) (i : Int) :
    missingKey h' (.int i) = missingKey h (.int i) := by
  rw [missingKey, missingKey, written_int, written_int]

end Value

namespace Draws

theorem ofExcept {α : Type} (e : Except Fault α) :
    Draws (Heap.Supplies σ) σ (fun _ => True) (Eval.ofExcept e) := by
  cases e with
  | ok a => exact pure trivial
  | error f => exact fault f

theorem rowItem {r : Ref} (hr : σ.stores r) (i : Int) :
    Draws (Heap.Supplies σ) σ (fun _ => True) (Value.subscript (.row r) (.int i)) := by
  refine get (fun h h' ha => ?_) fun h _ => ?_
  · dsimp only
    rw [ha.dictEntries hr, Value.lookupKey?_int h h', Value.missingKey_int h h']
  · refine bind (ofExcept _) fun found _ => ?_
    cases found with
    | some v => exact pure trivial
    | none => exact ofExcept _

end Draws

namespace Draws

variable {ev : Evaluator}
  (hnext : ∀ it : Value, it.IsIn σ → Draws (Heap.Supplies σ) σ (fun _ => True) (ev.next it))

include hnext

theorem findM? (items : List (Value × Nat)) (hitems : ∀ x ∈ items, x.1.IsIn σ) :
    Draws (Heap.Supplies σ) σ (fun _ => True)
      (items.findM? fun x => do return (← ev.next x.1).isSome : Eval (Option (Value × Nat))) := by
  induction items with
  | nil => exact pure trivial
  | cons x items ih =>
    refine bind (P := fun _ => True) ?_ fun found _ => ?_
    · exact bind (hnext _ (hitems x List.mem_cons_self)) fun _ _ => pure trivial
    · cases found with
      | true => exact pure trivial
      | false => exact ih fun y hy => hitems y (List.mem_cons_of_mem _ hy)

theorem zipped (strict : Bool) (inner : List Value) :
    ∀ i, (∀ it ∈ inner, it.IsIn σ) →
      Draws (Heap.Supplies σ) σ (fun _ => True) (ev.zipped strict i inner) := by
  induction inner with
  | nil => exact fun _ _ => pure trivial
  | cons it rest ih =>
    intro i hinner
    have hrest : ∀ it ∈ rest, it.IsIn σ := fun it hit => hinner it (List.mem_cons_of_mem _ hit)
    unfold Evaluator.zipped
    refine bind (hnext it (hinner it List.mem_cons_self)) fun item _ => ?_
    cases item with
    | some v =>
      refine bind (ih (i + 1) hrest) fun items _ => ?_
      cases items with
      | none => exact pure trivial
      | some vs => exact pure trivial
    | none =>
      dsimp only
      split
      · exact pure trivial
      · split
        · exact fault _
        · refine bind (findM? hnext rest.zipIdx fun x hx => ?_) fun longer _ => ?_
          · exact hrest _ (List.fst_mem_of_mem_zipIdx hx)
          · split
            · exact fault _
            · exact pure trivial

theorem step {c : Cursor} (hc : c.DrawsOn σ) :
    Draws (Heap.Supplies σ) σ (fun o => ∀ x, o = some x → x.2.DrawsOn σ) (ev.step c) := by
  have hsome {v : Value} {c : Cursor} (hc : c.DrawsOn σ) :
      Draws (Heap.Supplies σ) σ (fun o => ∀ x, o = some x → x.2.DrawsOn σ)
        (Pure.pure (some (v, c))) := by
    refine pure ?_
    rintro x ⟨⟩
    exact hc
  have hnone : Draws (Heap.Supplies σ) σ
      (fun o : Option (Value × Cursor) => ∀ x, o = some x → x.2.DrawsOn σ) (Pure.pure none) :=
    pure nofun
  unfold Evaluator.step
  cases c with
  | done => exact hnone
  | list r i =>
    refine get (fun h h' ha => ?_) fun h hs => ?_
    · rw [ha.listItems hc]
    · split
      · exact hsome hc
      · exact hnone
  | listBackward r i =>
    cases i with
    | zero => exact hnone
    | succ i =>
      refine get (fun h h' ha => ?_) fun h hs => ?_
      · rw [ha.listItems hc]
      · split
        · exact hsome hc
        · exact hnone
  | items vs =>
    cases vs with
    | nil => exact hnone
    | cons v vs => exact hsome trivial
  | set r i size =>
    refine get (fun h h' ha => ?_) fun h hs => ?_
    · rw [ha.setItems hc]
    · dsimp only
      split
      · exact bind (P := fun _ => False) (fault _) fun _ h => h.elim
      · split
        · exact hsome hc
        · exact hnone
  | dict kind r i size =>
    refine get (fun h h' ha => ?_) fun h hs => ?_
    · rw [ha.dictEntries hc]
    · dsimp only
      split
      · exact bind (P := fun _ => False) (fault _) fun _ h => h.elim
      · split
        · exact hsome hc
        · exact hnone
  | dictBackward kind r i size =>
    refine get (fun h h' ha => ?_) fun h hs => ?_
    · rw [ha.dictEntries hc]
    · dsimp only
      split
      · exact bind (P := fun _ => False) (fault _) fun _ h => h.elim
      · split
        · exact hnone
        · split
          · exact hsome hc
          · exact hnone
  | range n step i =>
    cases i with
    | zero => exact hnone
    | succ i => exact hsome trivial
  | enumerate inner i =>
    refine bind (hnext inner hc) fun item _ => ?_
    cases item with
    | some v => exact hsome hc
    | none => exact hnone
  | zip inner strict =>
    cases inner with
    | nil => exact hnone
    | cons it inner =>
      refine bind (zipped hnext strict (it :: inner) 0 hc) fun items _ => ?_
      cases items with
      | some vs => exact hsome hc
      | none => exact hnone
  | subscripts v i =>
    obtain ⟨r, rfl, hr⟩ := hc
    refine tryCatch (bind (rowItem hr i) fun v _ => hsome ⟨r, rfl, hr⟩) fun halt => ?_
    cases halt with
    | fault f =>
      dsimp only
      split
      · exact hnone
      · exact fault f
    | _ => exact throw _
  | comprehension c => exact hc.elim
  | loop r i => exact hc.elim

theorem nextItem {it : Value} (hit : it.IsIn σ) :
    Draws (Heap.Supplies σ) σ (fun _ => True) (ev.nextItem it) := by
  unfold Evaluator.nextItem
  split
  · rename_i kind r
    have hr := hit kind r rfl
    refine get (fun h h' ha => ?_) fun h hs => ?_
    · rw [ha.cursor hr]
    · obtain ⟨c, hc, hdraws⟩ := hs r hr
      rw [Heap.cursor_of_cell hc]
      refine bind (step hnext hdraws) fun found hfound => ?_
      cases found with
      | some x => exact bind (write hr (hfound x rfl)) fun _ _ => pure trivial
      | none =>
        dsimp only
        split
        · exact bind (write hr (c := .done) trivial) fun _ _ => pure trivial
        · exact pure trivial
  · exact pure trivial

omit hnext in
theorem next : ∀ (steps : Nat) {it : Value}, it.IsIn σ →
    Draws (Heap.Supplies σ) σ (fun _ => True) ((Evaluator.run steps).next it)
  | 0, _, _ => throw _
  | steps + 1, _, hit =>
    have hnext (it : Value) (hit : it.IsIn σ) :
        Draws (Heap.Supplies σ) σ (fun _ => True) ((Evaluator.run steps).next it) := next steps hit
    nextItem hnext hit

end Draws

section Drained

variable {it : Value} {n : Nat}

/-- The iterator delivers these items, and then no more. -/
inductive Delivering (it : Value) (n : Nat) : List Value → Heap → Heap → Prop
  | ended {h h' : Heap} (hn : (Evaluator.standard.next it).run n h = .ok none h') :
      Delivering it n [] h h'
  | more {v : Value} {vs : List Value} {h h₁ h' : Heap}
      (hn : (Evaluator.standard.next it).run n h = .ok (some v) h₁)
      (hd : Delivering it n vs h₁ h') : Delivering it n (v :: vs) h h'

/-- Collecting goes through all of them, if they are not too many. -/
theorem delivering_of_walk (fuel : Nat) : ∀ {done items : Array Value} {h h' : Heap},
    (Evaluator.standard.walk it (fun items v => return .yield (items.push v)) fuel done).run n h =
      .ok items h' →
    ∃ vs : List Value, items = done ++ vs.toArray ∧ Delivering it n vs h h' := by
  induction fuel with
  | zero => exact fun hrun => nomatch hrun
  | succ fuel ih =>
    intro done items h h' hrun
    unfold Evaluator.walk at hrun
    obtain ⟨item, h₁, hn, hrest⟩ := Eval.bind_ok hrun
    cases item with
    | none =>
      cases hrest
      exact ⟨[], by simp, .ended hn⟩
    | some v =>
      obtain ⟨vs, rfl, hd⟩ := ih hrest
      exact ⟨v :: vs, by simp, .more hn hd⟩

/-- An iterator whose items all come from the supply, without any code being run, draws on it. -/
theorem standard_draws (hit : it.IsIn σ) :
    Draws (Heap.Supplies σ) σ (fun _ => True) (Evaluator.standard.next it) :=
  Draws.next Evaluator.deepestStep hit

variable (hit : Draws S σ (fun _ => True) (Evaluator.standard.next it))

include hit

theorem next_agrees (hs : S h) (ha : h.Agrees σ h') {item : Option Value}
    (hn : (Evaluator.standard.next it).run n h = .ok item h₁) :
    ∃ h₁', (Evaluator.standard.next it).run n h' = .ok item h₁' ∧ Drew S σ h h' h₁ h₁' := by
  have hends := hit n h h' hs ha
  rw [hn] at hends
  generalize (Evaluator.standard.next it).run n h' = r at hends
  cases hends with
  | ok hd _ => exact ⟨_, rfl, hd⟩

theorem next_agrees_error (hs : S h) (ha : h.Agrees σ h') {halt : Halt}
    (hn : (Evaluator.standard.next it).run n h = .error halt h₁) :
    ∃ h₁', (Evaluator.standard.next it).run n h' = .error halt h₁' := by
  have hends := hit n h h' hs ha
  rw [hn] at hends
  generalize (Evaluator.standard.next it).run n h' = r at hends
  cases hends with
  | error hd => exact ⟨_, rfl⟩

theorem Delivering.sameBut {vs : List Value} (hs : S h) (hd : Delivering it n vs h h') :
    h.SameBut σ h' := by
  induction hd with
  | ended hn =>
    obtain ⟨_, -, hdrew⟩ := next_agrees hit hs (.refl _) hn
    exact hdrew.left
  | more hn _ ih =>
    obtain ⟨_, -, hdrew⟩ := next_agrees hit hs (.refl _) hn
    exact hdrew.left.trans (ih hdrew.supplies)

end Drained

end Stencil
