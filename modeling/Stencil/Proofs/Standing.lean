import Stencil.Proofs.LexicalScope
import Stencil.Proofs.Rounds

/-!
# Loops in their rounds

While a loop is in a round, whatever is done inside leaves its list and the loops around it as they
are, and its name, if it is not one of its targets. So wherever a render is, the loops around it are
those of its rounds, each of them the parent of the next.
-/

namespace Stencil

open Render

variable {free : Prop} {env : Environment} {h h' : Heap} {f r : Ref}

theorem Licence.own_within (h : Heap) (frame : Ref) (may : Text.Position → String → Prop) (r : Ref)
    (name : String) : h.frames.size ≤ r ∨
      (r = frame → ∀ p id, Variable.own name = .ofLoop p id → may p id) :=
  .inr fun _ _ _ heq => Variable.noConfusion heq

theorem Licence.unbarred {halt : Halt} (h : False) :
    ∃ name available, halt = .undefinedName name available ∧ name ∈ available := h.elim

/-- What may be done from a heap on by somebody who binds some variables of loops in a frame. -/
def Licence.within (h : Heap) (free : Prop) (frame : Ref) (may : Text.Position → String → Prop) :
    Licence where
  start := h
  moves r := free ∨ h.cells.size ≤ r
  asks r := h.cells.size ≤ r
  binds r x := h.frames.size ≤ r ∨ (r = frame → ∀ p name, x = .ofLoop p name → may p name)
  own := own_within h frame may
  bars _ := False
  barred := @unbarred

theorem Licence.within_allows {may : Text.Position → String → Prop} (henv : Suits h env) :
    (Licence.within h free f may).Allows free env :=
  ⟨fun _ hr => hr, fun _ hr => hr, fun _ _ hr => .inl hr, henv⟩

theorem Licence.within_binds {may : Text.Position → String → Prop} {p : Text.Position}
    {name : String} (hmay : may p name) :
    (Licence.within h free f may).binds f (.ofLoop p name) := by
  refine .inr fun _ p' name' heq => ?_
  cases heq
  exact hmay

theorem Licence.within_not_binds {may : Text.Position → String → Prop} {p : Text.Position}
    {name : String} (hf : f < h.frames.size) (hmay : ¬ may p name) :
    ¬ (Licence.within h free f may).binds f (.ofLoop p name) := by
  rintro (hsize | hbinds)
  · exact absurd hsize (Nat.not_le_of_lt hf)
  · exact hmay (hbinds rfl p name rfl)

theorem Action.IsSafe.of_ok {α : Type} [Refers α] {l : Licence} {w w₁ : World} {x : Action α}
    {a : α} (hx : Action.IsSafe l w x) (hs : w.heap.IsSound) (hled : l.Leads l.start w.heap)
    (hrun : x.run w = .ok a w₁) : l.Leads w.heap w₁.heap ∧ w₁.heap.IsSound ∧ Suits w₁.heap a := by
  have hr := hx hs hled
  rw [hrun] at hr
  cases hr with
  | ok hl hs₁ ha => exact ⟨hl, hs₁, ha⟩

/-- After `k` passes of a loop: its state but for the pass, its iterator, and its name. Where loops
are not moved freely, the pass is the last one. -/
structure Heap.Runs (h : Heap) (f : Ref) (ls : LoopScope) (r : Ref) (s : LoopState) (free : Prop)
    (k : Nat) : Prop where
  loop : ∃ i, h.cells[r]? = some (.loop { s with index := i }) ∧ (¬ free → i = k - 1)
  iterator : h.cells[r + 1]? = some (.iterator (.loop r k))
  named : ls.counted = true → h.current f (.ofLoop ls.position "loop") = some (.loop r)

namespace Heap.Runs

variable {ls : LoopScope} {s : LoopState} {k : Nat}

theorem lt_size (hruns : h.Runs f ls r s free k) : r < h.cells.size := by
  obtain ⟨i, hr, -⟩ := hruns.loop
  exact (Array.getElem?_eq_some_iff.mp hr).1

theorem after (hruns : h.Runs f ls r s free k) {may : Text.Position → String → Prop}
    (hl : (Licence.within h free f may).Leads h h') (hf : f < h.frames.size)
    (hmay : ls.counted = true → ¬ may ls.position "loop") : h'.Runs f ls r s free k := by
  have hlt := hruns.lt_size
  obtain ⟨i, hr, hi⟩ := hruns.loop
  obtain ⟨j, hr', hj⟩ := hl.loops hr
  refine ⟨⟨j, hr', fun hfree => ?_⟩, ?_, fun hcounted => ?_⟩
  · have hstays : ¬ (free ∨ h.cells.size ≤ r) := by
      rintro (hall | hnew)
      · exact hfree hall
      · exact absurd hnew (Nat.not_le_of_lt hlt)
    exact (hj hstays).trans (hi hfree)
  · exact (hl.iterators hr (Nat.not_le_of_lt hlt)).trans hruns.iterator
  · have hbinds : ¬ (Licence.within h free f may).binds f (.ofLoop ls.position "loop") :=
      Licence.within_not_binds hf (hmay hcounted)
    exact (hl.values hf hbinds).trans (hruns.named hcounted)

theorem passed {i : Nat} (hruns : h.Runs f ls r s free k)
    (hr : h.cells[r]? = some (.loop { s with index := i })) :
    (h.passed r { s with index := i } k).Runs f ls r s free (k + 1) := by
  have hcells := passed_cells hr k hruns.iterator
  refine ⟨⟨k, ?_, fun _ => rfl⟩, ?_, hruns.named⟩
  · rw [hcells, if_neg (Nat.succ_ne_self r), if_pos rfl]
  · rw [hcells, if_pos rfl]

end Heap.Runs

namespace Render

variable {reach : Reach} {w w₁ w₂ : World}

theorem evaluate_inv {α : Type} {e : Eval α} {a : α}
    (hrun : (reach.evaluate e).run w = .ok a w₁) :
    e.run reach.calls w.heap = .ok a w₁.heap := by
  change Action.evaluateUnder reach.calls e w = _ at hrun
  unfold Action.evaluateUnder at hrun
  split at hrun
  · rename_i he
    cases hrun
    exact he
  · cases hrun

theorem started_inv {scope : Scope} {p : Text.Position} {target source : Code} {body : List Node}
    {it : Value} (hrun : (started reach scope p target source body).run w = .ok it w₁) :
    ∃ v w', (evalCode reach scope source).run w = .ok v w' ∧
      (startLoop reach.ev scope (loopScope p target body) (Node.mention "loop" body)
        (sourceValue v)).run reach.calls w'.heap = .ok it w₁.heap := by
  obtain ⟨v, w', hv, hrun⟩ := Action.bind_ok hrun
  exact ⟨v, w', hv, evaluate_inv hrun⟩

/-- A loop that was made goes by its list; that is what it was when the loop was made. -/
theorem withLoop_listItems {scope : Scope} {ls : LoopScope} {items : Ref}
    (hitems : h.Offers .list items) :
    ((h.withLoop scope items).named scope ls h.cells.size).listItems items =
      h.listItems items := by
  obtain ⟨-, c, hc, -⟩ := hitems
  have hlt := (Array.getElem?_eq_some_iff.mp hc).1
  unfold Heap.listItems
  rw [named_cells, withLoop_cells, if_neg (Nat.ne_of_lt (Nat.lt_succ_of_lt hlt)),
    if_neg (Nat.ne_of_lt hlt)]

theorem withLoop_runs {scope : Scope} {ls : LoopScope} {items : Ref}
    (hf : scope.frame < h.frames.size) :
    ((h.withLoop scope items).named scope ls h.cells.size).Runs scope.frame ls h.cells.size
      ⟨items, (h.listItems items).size, 0, h.parentOf scope⟩ free 0 where
  loop := ⟨0, made_loop h scope ls items, fun _ => rfl⟩
  iterator := by rw [named_cells, withLoop_cells, if_pos rfl]
  named hcounted := by
    unfold Heap.current Heap.named
    rw [if_pos hcounted]
    dsimp only
    rw [Renaming.get?_modify, if_pos ⟨⟨rfl, hf⟩, rfl⟩]

section Under

variable (hr : reach.IsSafe free env) {scope : Scope} {p : Text.Position} {target source : Code}
  {body : List Node} {it : Value} {may : Text.Position → String → Prop} {l : Licence}

include hr

theorem started_counts (hl : l.Allows free env)
    (hbinds : ∀ name, l.binds scope.frame (.ofLoop p name))
    (hs : w.heap.IsSound) (hled : l.Leads l.start w.heap)
    (hf : scope.frame < w.heap.frames.size) (hcounts : Node.mention "loop" body = true)
    (hrun : (started reach scope p target source body).run w = .ok it w₁) :
    l.Leads w.heap w₁.heap ∧ w₁.heap.IsSound ∧ ∃ r s h₁, it = .iterator .generator (r + 1) ∧
      w.heap.cells.size ≤ r ∧ w₁.heap.cells[r]? = some (.loop s) ∧
      w₁.heap.Runs scope.frame (loopScope p target body) r s free 0 ∧
      s.length = (w₁.heap.listItems s.items).size ∧ l.Leads w.heap h₁ ∧
      s.parent = h₁.parentOf scope := by
  obtain ⟨v, w', hv, hstart⟩ := started_inv hrun
  obtain ⟨hl', hs', hfits⟩ := (evalCode_safe hr hl source).of_ok hs hled hv
  rw [hcounts] at hstart
  rcases startLoop_made scope (loopScope p target body) (hr.ev hl) (fun _ => hbinds "loop")
      (sourceValue_suits hfits) hs' (hled.trans hl') reach.calls with
    ⟨items, h₁, h₂, hh₂, hmade, hl₁, -, hitems, hl₂, hs₂⟩ | ⟨halt, h₁, hmade, -⟩
  · rw [hstart] at hmade
    cases hmade
    have hsize : w.heap.cells.size ≤ h₁.cells.size :=
      Nat.le_trans hl'.size_le hl₁.size_le
    have hf₁ : scope.frame < h₁.frames.size :=
      Nat.lt_of_lt_of_le hf (Nat.le_trans hl'.frames_le hl₁.frames_le)
    refine ⟨hl'.trans hl₂, hs₂, _, ⟨items, (h₁.listItems items).size, 0, h₁.parentOf scope⟩, h₁,
      rfl, hsize, ?_, ?_, ?_, hl'.trans hl₁, rfl⟩
    · rw [hh₂]
      exact made_loop ..
    · rw [hh₂]
      exact withLoop_runs hf₁
    · dsimp only
      rw [hh₂, withLoop_listItems hitems]
  · rw [hstart] at hmade
    cases hmade

theorem started_plain (hl : l.Allows free env) (hs : w.heap.IsSound)
    (hled : l.Leads l.start w.heap) (hcounts : Node.mention "loop" body = false)
    (hrun : (started reach scope p target source body).run w = .ok it w₁) :
    l.Leads w.heap w₁.heap ∧ w₁.heap.IsSound ∧ Suits w₁.heap it := by
  obtain ⟨v, w', hv, hstart⟩ := started_inv hrun
  obtain ⟨hl', hs', hfits⟩ := (evalCode_safe hr hl source).of_ok hs hled hv
  rw [hcounts] at hstart
  have hsafe := Safe.toIterator (l := l) (sourceValue_suits hfits) hs' (hled.trans hl') reach.calls
  change l.Ends _ ((startLoop reach.ev scope (loopScope p target body) false
    (sourceValue v)).run reach.calls w'.heap) at hsafe
  rw [hstart] at hsafe
  cases hsafe with
  | ok hl₁ hs₁ hit => exact ⟨hl'.trans hl₁, hs₁, hit⟩

/-- A loop under way gets its next item from its list as it is now. -/
theorem next_runs {ls : LoopScope} {s : LoopState} {k : Nat} {v : Value}
    (hl : l.Allows free env) (hs : w.heap.IsSound) (hled : l.Leads l.start w.heap)
    (hnew : l.start.cells.size ≤ r) (hruns : w.heap.Runs f ls r s free k)
    (hrun : (reach.evaluate (reach.ev.next (.iterator .generator (r + 1)))).run w =
      .ok (some v) w₁) :
    l.Leads w.heap w₁.heap ∧ w₁.heap.IsSound ∧ Suits w₁.heap v ∧
      w₁.heap.Runs f ls r s free (k + 1) ∧ (w₁.heap.listItems s.items)[k]? = some v := by
  have hnext := evaluate_inv hrun
  obtain ⟨i, hloop, -⟩ := hruns.loop
  have hown : (w.heap.cursor (r + 1)).IsOwn r := by
    rw [Heap.cursor_of_cell hruns.iterator]
    rfl
  rw [hr.own hown] at hnext
  obtain ⟨item, h', hsame, hl', hs', hfits⟩ :=
    next_own hs hloop hled (hl.moves r (.inr hnew)) (hl.asks r hnew) reach.calls
  rw [hnext] at hsame
  cases hsame
  refine ⟨hl', hs', suits_some.mp hfits, ?_⟩
  cases hitem : (w.heap.listItems s.items)[k]? with
  | none =>
    rw [next_own_end hloop hruns.iterator hitem] at hnext
    cases hnext
  | some v' =>
    rw [next_own_item hloop hruns.iterator hitem] at hnext
    injection hnext with hv hheap
    cases hv
    rw [← hheap, passed_listItems hloop hruns.iterator]
    exact ⟨hruns.passed hloop, hitem⟩

/-- What an assignment to the targets of a loop leaves under way. -/
theorem assigned_runs {ls : LoopScope} {s : LoopState} {k : Nat} {v : Value}
    (hs : w.heap.IsSound) (henv : Suits w.heap env) (hf : scope.frame < w.heap.frames.size)
    (hv : Suits w.heap v) (hspares : ls.counted = true →
      ¬ (ls.position = p ∧ "loop" ∈ target.expr.storedNames))
    (hruns : w.heap.Runs scope.frame ls r s free k)
    (hrun : (assigned reach scope p target body v).run w = .ok () w₁) :
    w₁.heap.Runs scope.frame ls r s free k := by
  let may : Text.Position → String → Prop := fun q name => q = p ∧ name ∈ target.expr.storedNames
  let l := Licence.within w.heap free scope.frame may
  have hl : l.Allows free env := Licence.within_allows henv
  have hsafe : Action.IsSafe l w (assigned reach scope p target body v) := by
    refine .evaluateUnder _ (bindTarget_safe (hr.ev hl) (fun name hname => ?_) hv)
    exact Licence.within_binds ⟨rfl, hname⟩
  exact hruns.after (hsafe.of_ok hs (.refl _ _) hrun).1 hf hspares

theorem nodes_runs {ls : LoopScope} {s : LoopState} {k : Nat} {ns : List Node} {out : Output}
    (hs : w.heap.IsSound) (henv : Suits w.heap env) (hf : scope.frame < w.heap.frames.size)
    (hspares : ls.position ∉ Node.loopPlacesOf ns)
    (hruns : w.heap.Runs scope.frame ls r s free k)
    (hrun : (nodes reach scope #[] ns).run w = .ok out w₁) :
    w₁.heap.Runs scope.frame ls r s free k := by
  let may : Text.Position → String → Prop := fun q _ => q ∈ Node.loopPlacesOf ns
  let l := Licence.within w.heap free scope.frame may
  have hl : l.Allows free env := Licence.within_allows henv
  have hsafe : Action.IsSafe l w (nodes reach scope #[] ns) :=
    nodes_safe hr hl ns fun q hq name => Licence.within_binds hq
  exact hruns.after (hsafe.of_ok hs (.refl _ _) hrun).1 hf fun _ => hspares

theorem assigned_safe (hl : l.Allows free env) (hbinds : l.BindsIn scope.frame [p]) {v : Value}
    (hv : Suits w.heap v) : Action.IsSafe l w (assigned reach scope p target body v) := by
  refine .evaluateUnder _ (bindTarget_safe (hr.ev hl) (fun name _ => ?_) hv)
  exact hbinds p List.mem_cons_self name

section Passing

variable (hl : l.Allows free env) (hbinds : l.BindsIn scope.frame (p :: Node.loopPlacesOf body))

include hl hbinds

theorem itemPass_safe {v : Value} (hv : Suits w.heap v) :
    Action.IsSafe l w (itemPass reach scope p target body v) := by
  have hown : l.BindsIn scope.frame [p] := fun q hq =>
    hbinds q (List.mem_singleton.mp hq ▸ List.mem_cons_self)
  refine .bind (assigned_safe hr hl hown hv) fun _ _ => ?_
  exact nodes_safe hr hl body fun q hq => hbinds q (List.mem_cons_of_mem _ hq)

variable (hs : w.heap.IsSound) (hled : l.Leads l.start w.heap)
  (hf : scope.frame < w.heap.frames.size) {k : Nat}

include hs hled hf

theorem itemPass_runs {s : LoopState} {v : Value} {out : Output} (hv : Suits w.heap v)
    (hp : p ∉ Node.loopPlacesOf body)
    (hruns : w.heap.Runs scope.frame (loopScope p target body) r s free k)
    (hrun : (itemPass reach scope p target body v).run w = .ok out w₁) :
    w₁.heap.Runs scope.frame (loopScope p target body) r s free k := by
  obtain ⟨⟨⟩, w', ha, hnodes⟩ := Action.bind_ok hrun
  have hown : l.BindsIn scope.frame [p] := fun q hq =>
    hbinds q (List.mem_singleton.mp hq ▸ List.mem_cons_self)
  obtain ⟨hl', hs', -⟩ := (assigned_safe hr hl hown hv).of_ok hs hled ha
  have hspares : (loopScope p target body).counted = true →
      ¬ ((loopScope p target body).position = p ∧ "loop" ∈ target.expr.storedNames) := by
    rintro hcounted ⟨-, hmem⟩
    simp [loopScope] at hcounted
    exact hcounted.2 hmem
  have hruns' := assigned_runs hr hs (hl.env.after hled) hf hv hspares hruns ha
  have hf' : (innerScope scope p target body).frame < w'.heap.frames.size :=
    Nat.lt_of_lt_of_le hf hl'.frames_le
  have hafter := nodes_runs hr hs' (hl.env.after (hled.trans hl')) hf' hp hruns' hnodes
  exact hafter

variable (hpasses : Passes reach scope p target body it k w w₁)

include hpasses

omit hf in
theorem passes_plain (hit : Suits w.heap it) : l.Leads w.heap w₁.heap ∧ w₁.heap.IsSound := by
  induction hpasses with
  | none => exact ⟨.refl _ _, hs⟩
  | more h hi hp ih =>
    obtain ⟨hl₁, hs₁⟩ := ih hs hled hit
    have hled₁ := hled.trans hl₁
    have hnext := Action.IsSafe.evaluateUnder reach.calls ((hr.ev hl).next (hit.after hl₁))
    obtain ⟨hl₂, hs₂, hv⟩ := hnext.of_ok hs₁ hled₁ hi
    have hpass : Action.IsSafe l _ (itemPass reach scope p target body _) :=
      itemPass_safe hr hl hbinds (suits_some.mp hv)
    obtain ⟨hl₃, hs₃, -⟩ := hpass.of_ok hs₂ (hled₁.trans hl₂) hp
    exact ⟨(hl₁.trans hl₂).trans hl₃, hs₃⟩

/-- After any number of passes a loop that counts them is under way. -/
theorem passes_counts {s : LoopState} (hnew : l.start.cells.size ≤ r)
    (hit : it = .iterator .generator (r + 1)) (hp : p ∉ Node.loopPlacesOf body)
    (hruns : w.heap.Runs scope.frame (loopScope p target body) r s free 0) :
    l.Leads w.heap w₁.heap ∧ w₁.heap.IsSound ∧
      w₁.heap.Runs scope.frame (loopScope p target body) r s free k := by
  subst hit
  induction hpasses with
  | none => exact ⟨.refl _ _, hs, hruns⟩
  | @more k v out w w₁ w₂ w₃ h hi hpass ih =>
    obtain ⟨hl₁, hs₁, hruns₁⟩ := ih hs hled hf hruns
    have hled₁ := hled.trans hl₁
    obtain ⟨hl₂, hs₂, hv, hruns₂, -⟩ := next_runs hr hl hs₁ hled₁ hnew hruns₁ hi
    have hled₂ := hled₁.trans hl₂
    have hsafe : Action.IsSafe l w₂ (itemPass reach scope p target body v) :=
      itemPass_safe hr hl hbinds hv
    obtain ⟨hl₃, hs₃, -⟩ := hsafe.of_ok hs₂ hled₂ hpass
    have hf₂ : scope.frame < w₂.heap.frames.size :=
      Nat.lt_of_lt_of_le hf (hl₁.trans hl₂).frames_le
    exact ⟨(hl₁.trans hl₂).trans hl₃, hs₃,
      itemPass_runs hr hl hbinds hs₂ hled₂ hf₂ hv hp hruns₂ hpass⟩

end Passing

end Under

end Render

end Stencil
