import Stencil.Proofs.Entries

/-!
# A stop ends the render

Nothing between a construct and the page around it takes a stop back. If a render comes to a
moment and stops there, the body stops, and with it every entry that the body was rendered for.
The stop is the same all the way, but for a fault, which the boundary it leaves turns into an
error; no boundary farther out changes it again.
-/

namespace Stencil

variable {α β : Type}

namespace Action

theorem error_of_pure {x : Action α} {f : α → β} {w w' : World} {s : Stop}
    (h : (x >>= fun a => Pure.pure (f a)).run w = .error s w') : x.run w = .error s w' := by
  rcases bind_error h with h | ⟨_, _, _, h⟩
  · exact h
  · cases h

/-- What a boundary has reported is no fault, so the next one leaves it as it is. -/
theorem reported_of_not_fault (b : Boundary) {s : Stop} (h : ∀ f, s ≠ .failed (.fault f)) :
    reported b s = s := by
  unfold reported
  split
  · rename_i f
    exact absurd rfl (h f)
  · rfl

end Action

namespace Render

section Moments

variable {reach : Reach} {s : Stop} {w' : World}

theorem branch_of_false {scope : Scope} {t : Code} {body : List Node} {w w₁ : World}
    (ht : (test reach scope t).run (w.marked t.position.line) = .ok false w₁) :
    (branch reach scope (t, body)).run w = .ok none w₁ := by
  rw [branch, Action.bind_of_ok (markLine_run t.position.line w), Action.bind_of_ok ht]
  rfl

mutual

theorem VisitsNode.stops : ∀ {scope : Scope} {n : Node} {w : World} {m : Moment},
    VisitsNode reach scope n w m → (m.own.perform reach).run m.world = .error s w' →
      (node reach scope n).run w = .error s w'
  | _, _, _, _, .shown, h => by
    rw [node, Action.bind_of_ok (markLine_run _ _)]
    rcases Action.bind_error h with h | ⟨v, w₁, hv, h⟩
    · exact Action.bind_of_error h _
    · exact (Action.bind_of_ok hv _).trans (Action.bind_of_error (Action.error_of_pure h) _)
  | _, _, _, _, .place, h => by
    rw [node, Action.bind_of_ok (markLine_run _ _)]
    exact Action.error_of_pure h
  | scope, _, w, _, @VisitsNode.inclusion _ _ p name given _, h => by
    rw [node, Action.bind_of_ok (markLine_run _ _)]
    have hgiven : (givenData reach scope given >>= reach.including name).run (w.marked p.line) =
        .error s w' := by
      rcases Action.bind_error h with h | ⟨v, w₁, hv, h⟩
      · exact Action.bind_of_error h _
      · exact (Action.bind_of_ok hv _).trans (Action.error_of_pure h)
    cases given <;> exact hgiven
  | _, _, _, _, .test, h => by
    rw [node, Action.bind_of_ok (markLine_run _ _)]
    exact Action.bind_of_error (Action.error_of_pure h) _
  | _, _, _, _, .taken ht hm, h => by
    rw [node, Action.bind_of_ok (markLine_run _ _), Action.bind_of_ok ht]
    exact hm.stops h #[]
  | _, _, _, _, .others ht hm, h => by
    rw [node, Action.bind_of_ok (markLine_run _ _), Action.bind_of_ok ht]
    exact hm.stops h
  | _, _, _, _, .source, h => by
    rw [node_loop, Action.bind_of_ok (markLine_run _ _)]
    exact Action.bind_of_error (Action.error_of_pure h) _
  | _, _, _, _, .passes hs hm, h => by
    rw [node_loop, Action.bind_of_ok (markLine_run _ _), Action.bind_of_ok hs]
    exact hm.stops h #[]
  | _, _, _, _, .tests hm, h => by
    rw [node_while, Action.bind_of_ok (markLine_run _ _)]
    exact hm.stops h #[]

theorem Visits.stops : ∀ {scope : Scope} {ns : List Node} {w : World} {m : Moment},
    Visits reach scope ns w m → (m.own.perform reach).run m.world = .error s w' →
      ∀ out, (nodes reach scope out ns).run w = .error s w'
  | _, _, _, _, .head hm, h => fun out => by
    rw [nodes]
    exact Action.bind_of_error (hm.stops h) _
  | _, _, _, _, .tail hn hm, h => fun out => by
    rw [nodes, Action.bind_of_ok hn]
    exact hm.stops h _

theorem VisitsBranches.stops : ∀ {scope : Scope} {others : List (Code × List Node)}
    {otherwise : List Node} {w : World} {m : Moment},
    VisitsBranches reach scope others otherwise w m →
      (m.own.perform reach).run m.world = .error s w' →
        (branches reach scope (nodes reach scope #[] otherwise) others).run w = .error s w'
  | _, _, _, _, _, .otherwise hm, h => hm.stops h #[]
  | scope, (t, body) :: _, _, w, _, .test, h => by
    have hbranch : (branch reach scope (t, body)).run w = .error s w' := by
      rw [branch, Action.bind_of_ok (markLine_run t.position.line w)]
      exact Action.bind_of_error (Action.error_of_pure h) _
    rw [branches]
    exact Action.bind_of_error hbranch _
  | scope, (t, body) :: _, _, w, _, .taken ht hm, h => by
    have hbranch : (branch reach scope (t, body)).run w = .error s w' := by
      rw [branch, Action.bind_of_ok (markLine_run t.position.line w), Action.bind_of_ok ht]
      exact Action.bind_of_error (hm.stops h #[]) _
    rw [branches]
    exact Action.bind_of_error hbranch _
  | scope, (t, body) :: _, _, w, _, .others ht hm, h => by
    rw [branches, Action.bind_of_ok (branch_of_false ht)]
    exact hm.stops h

theorem VisitsPasses.stops : ∀ {scope : Scope} {p : Text.Position} {target : Code}
    {body : List Node} {it : Value} {fuel : Nat} {passed : List Nat} {w : World} {m : Moment},
    VisitsPasses reach scope p target body it fuel passed w m →
      (m.own.perform reach).run m.world = .error s w' →
        ∀ out, (eachItem reach it (itemPass reach scope p target body) fuel out).run w =
          .error s w'
  | _, _, _, _, _, _, _, _, _, .endless, h => fun _ => by
    cases h
    rfl
  | _, _, _, _, _, _, _, _, _, .item, h => fun _ => by
    unfold eachItem
    exact Action.bind_of_error (Action.error_of_pure h) _
  | _, _, _, _, _, _, _, _, _, .target hi, h => fun _ => by
    unfold eachItem
    rw [Action.bind_of_ok hi]
    exact Action.bind_of_error (Action.bind_of_error h _) _
  | _, _, _, _, _, _, _, _, _, .body hi ha hm, h => fun _ => by
    unfold eachItem
    rw [Action.bind_of_ok hi]
    exact Action.bind_of_error ((Action.bind_of_ok ha _).trans (hm.stops h #[])) _
  | _, _, _, _, _, _, _, _, _, .next hi hp hm, h => fun _ => by
    unfold eachItem
    rw [Action.bind_of_ok hi]
    exact (Action.bind_of_ok hp _).trans (hm.stops h _)

theorem VisitsTests.stops : ∀ {scope : Scope} {p : Text.Position} {t : Code}
    {body : List Node} {fuel : Nat} {w : World} {m : Moment},
    VisitsTests reach scope p t body fuel w m →
      (m.own.perform reach).run m.world = .error s w' →
        ∀ out, (whileTrue (test reach scope t) (whilePass reach scope p body) fuel out).run w =
          .error s w'
  | _, _, _, _, _, _, _, .endless, h => fun _ => by
    cases h
    rfl
  | _, _, _, _, _, _, _, .test, h => fun _ => by
    unfold whileTrue
    exact Action.bind_of_error (Action.error_of_pure h) _
  | _, _, _, _, _, _, _, .body ht hm, h => fun _ => by
    unfold whileTrue
    rw [Action.bind_of_ok ht]
    exact Action.bind_of_error (Action.bind_of_error (hm.stops h #[]) _) _
  | _, _, _, _, _, _, _, .next ht hp hm, h => fun _ => by
    unfold whileTrue
    rw [Action.bind_of_ok ht]
    exact (Action.bind_of_ok hp _).trans (hm.stops h _)

end

end Moments

section Acts

variable {env : Environment} {ev : Evaluator} {n : Nat} {e : Entry} {a : Act} {w w' : World}
  {s : Stop}

/-- What is done stops if it stops in the boundary itself or in what it enters. -/
theorem Act.StopsBy.perform {own : Own} {line : Nat} {passed : List Nat}
    (h : Act.StopsBy (Render.part env ev n)
      ⟨line, passed, w, own.locally env (e.reach env ev n) e.data e.sections⟩ s w') :
    (own.perform (e.reach env ev n)).run w = .error s w' := by
  cases own with
  | place name fallback =>
    have hyield : (yieldTo (Render.part env ev n) e.data e.sections name fallback).run w =
        .error s w' := by
      rw [yieldTo_eq]
      rcases h with h | ⟨e', w₁, hentry, h⟩
      · exact Action.bind_of_error h _
      · exact (Action.bind_of_ok hentry _).trans h
    exact Action.bind_of_error hyield _
  | inclusion scope name given =>
    have hinclude : (givenData (e.reach env ev n) scope given >>=
        includePartial env (env.host.calls n) (Render.part env ev n) name).run w = .error s w' := by
      rcases h with h | ⟨e', w₁, hentry, h⟩
      · rcases Action.bind_error h with h | ⟨v, w₁, hv, h⟩
        · exact Action.bind_of_error h _
        · rw [Action.bind_of_ok hv, includePartial_eq]
          exact Action.bind_of_error (Action.error_of_pure h) _
      · obtain ⟨v, w₂, hv, hentry⟩ := Action.bind_ok hentry
        obtain ⟨e₁, w₃, hentry, hsome⟩ := Action.bind_ok hentry
        cases hsome
        rw [Action.bind_of_ok hv, includePartial_eq]
        exact (Action.bind_of_ok hentry _).trans h
    rcases Action.bind_error hinclude with h | ⟨v, w₁, hv, h⟩
    · exact Action.bind_of_error h _
    · exact (Action.bind_of_ok hv _).trans (Action.bind_of_error h _)
  | _ =>
    rcases h with h | ⟨e', w₁, hentry, h⟩
    · exact Action.error_of_pure h
    · obtain ⟨_, _, _, hnone⟩ := Action.bind_ok hentry
      cases hnone

theorem Entry.Acts.stops (ha : e.Acts env ev n w a) (h : a.StopsBy (Render.part env ev n) s w') :
    (Render.part env ev (n + 1) e.part e.data e.sections).run
        { w with boundary := some e.boundary } =
      .error s w' := by
  cases ha with
  | body hp hf hm =>
    have hmoment := hm.stops (Act.StopsBy.perform h) #[]
    rw [part_body hp]
    exact (Action.bind_of_ok hf _).trans hmoment
  | @layout t p name own hp ht =>
    have hextend : (extend env (env.host.calls n) (Render.part env ev n) name e.data
        (e.sections.register t)).run (World.marked { w with boundary := some e.boundary } p.line) =
          .error s w' := by
      rw [extend_eq]
      rcases h with h | ⟨e', w₁, hentry, h⟩
      · exact Action.bind_of_error (Action.error_of_pure h) _
      · obtain ⟨e₁, w₂, hentry, hsome⟩ := Action.bind_ok hentry
        cases hsome
        exact (Action.bind_of_ok hentry _).trans h
    rw [hp, part_extension env ev n ht, Action.bind_of_ok (markLine_run p.line _)]
    exact hextend

/-- The render of an entry then stops with what its boundary makes of the stop. -/
theorem Entry.Acts.render_stops (ha : e.Acts env ev n w a)
    (h : a.StopsBy (Render.part env ev n) s w') :
    ∃ w₁, (e.render (Render.part env ev (n + 1))).run w =
      .error (Action.reported (w'.boundary.getD e.boundary) s) w₁ :=
  ⟨_, Action.within_of_error (ha.stops h)⟩

end Acts

end Render

end Stencil
