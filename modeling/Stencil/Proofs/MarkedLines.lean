import Stencil.Proofs.Moments

/-!
# The line of a moment

A boundary shows the line that was marked last. Every construct marks its line before it does
anything, and a loop that tests before each pass marks it again behind each pass. So whatever a
construct does is done at its own line. A loop over items does not mark its line again: what it
does behind a pass is done at the line its body has marked last.
-/

namespace Stencil

variable {α : Type}

namespace Render

variable {reach : Reach} {b : Boundary}

/-- The boundary `b` is being rendered and shows one of some lines. -/
def Shows (b : Boundary) (lines : List Nat) (w : World) : Prop :=
  ∃ line ∈ lines, w.boundary = some (b.atLine line)

theorem Shows.mono {lines lines' : List Nat} {w : World} (h : Shows b lines w)
    (hl : lines ⊆ lines') : Shows b lines' w := by
  obtain ⟨line, hline, hw⟩ := h
  exact ⟨line, hl hline, hw⟩

theorem Shows.marked {lines : List Nat} {w : World} (h : Shows b lines w) (line : Nat) :
    Shows b [line] (w.marked line) := by
  obtain ⟨_, _, hw⟩ := h
  exact ⟨line, List.mem_singleton_self line, by rw [World.marked, hw]; rfl⟩

theorem Shows.kept {x : Action α} {lines : List Nat} {w w₁ : World} {a : α}
    (h : Shows b lines w) (hx : x.Keeps) (hrun : x.run w = .ok a w₁) : Shows b lines w₁ := by
  obtain ⟨line, hline, hw⟩ := h
  exact ⟨line, hline, (hx w a w₁ hrun).trans hw⟩

/-- Other templates come back to where they were entered from. -/
structure Reach.Returns (reach : Reach) : Prop where
  yielding : ∀ name fallback, (reach.yielding name fallback).Keeps
  including : ∀ name v, (reach.including name v).Keeps

theorem evaluate_keeps (e : Eval α) : (reach.evaluate e).Keeps := .evaluateUnder _ _

theorem textOf_keeps (v : Value) : (textOf v).Keeps := by
  intro w s w' h
  unfold textOf at h
  obtain ⟨heap, w₁, ⟨⟩, h⟩ := Action.bind_ok h
  cases htext : v.outputText w.heap with
  | ok s' =>
    rw [htext] at h
    cases h
    rfl
  | error f =>
    rw [htext] at h
    cases h

theorem test_keeps (scope : Scope) (t : Code) : (test reach scope t).Keeps :=
  (evaluate_keeps _).bind fun _ w b w' h => by
    cases h
    rfl

theorem started_keeps (scope : Scope) (p : Text.Position) (target source : Code)
    (body : List Node) : (started reach scope p target source body).Keeps :=
  (evaluate_keeps _).bind fun _ => evaluate_keeps _

theorem givenData_keeps (scope : Scope) (given : Option Code) :
    (givenData reach scope given).Keeps := by
  cases given <;> exact evaluate_keeps _

/-- After an item that was passed the line is the one before, or one of the loop's body. -/
theorem eachItem_shows {scope : Scope} {p : Text.Position} {target : Code} {body : List Node}
    {it : Value} {lines : List Nat}
    (hbody : ∀ {scope lines w out w₁}, Shows b lines w →
      (nodes reach scope #[] body).run w = .ok out w₁ →
        Shows b (lines ++ Node.linesOf body) w₁) (hlines : Node.linesOf body ⊆ lines)
    (fuel : Nat) : ∀ {out out' : Output} {w w' : World}, Shows b lines w →
      (eachItem reach it (itemPass reach scope p target body) fuel out).run w = .ok out' w' →
        Shows b lines w' := by
  induction fuel with
  | zero =>
    rintro _ _ _ _ _ ⟨⟩
  | succ fuel ih =>
    intro out out' w w' hw h
    unfold eachItem at h
    obtain ⟨next, w₁, hi, h⟩ := Action.bind_ok h
    have hw := hw.kept (evaluate_keeps _) hi
    cases next with
    | none =>
      cases h
      exact hw
    | some v =>
      obtain ⟨more, w₂, hp, h⟩ := Action.bind_ok h
      obtain ⟨⟨⟩, w₃, ha, hp⟩ := Action.bind_ok hp
      have hpassed := hbody (hw.kept (evaluate_keeps _) ha) hp
      exact ih (hpassed.mono (List.append_subset.mpr ⟨List.Subset.refl _, hlines⟩)) h

theorem whilePass_shows {scope : Scope} {p : Text.Position} {body : List Node} {lines : List Nat}
    (hbody : ∀ {scope lines w out w₁}, Shows b lines w →
      (nodes reach scope #[] body).run w = .ok out w₁ →
        Shows b (lines ++ Node.linesOf body) w₁) {out : Output} {w w' : World}
    (hw : Shows b lines w) (h : (whilePass reach scope p body).run w = .ok out w') :
    Shows b [p.line] w' := by
  obtain ⟨more, w₁, hb, h⟩ := Action.bind_ok h
  obtain ⟨_, w₂, hmark, h⟩ := Action.bind_ok h
  cases hmark
  cases h
  exact (hbody hw hb).marked p.line

theorem whileTrue_shows {scope : Scope} {p : Text.Position} {t : Code} {body : List Node}
    (hbody : ∀ {scope lines w out w₁}, Shows b lines w →
      (nodes reach scope #[] body).run w = .ok out w₁ →
        Shows b (lines ++ Node.linesOf body) w₁) (fuel : Nat) :
    ∀ {out out' : Output} {w w' : World}, Shows b [p.line] w →
      (whileTrue (test reach scope t) (whilePass reach scope p body) fuel out).run w =
        .ok out' w' → Shows b [p.line] w' := by
  induction fuel with
  | zero =>
    rintro _ _ _ _ _ ⟨⟩
  | succ fuel ih =>
    intro out out' w w' hw h
    unfold whileTrue at h
    obtain ⟨again, w₁, ht, h⟩ := Action.bind_ok h
    have hw := hw.kept (test_keeps scope t) ht
    cases again with
    | false =>
      cases h
      exact hw
    | true =>
      obtain ⟨more, w₂, hp, h⟩ := Action.bind_ok h
      exact ih (whilePass_shows hbody hw hp) h

theorem marked_ok {line : Nat} {f : Unit → Action α} {w w' : World} {a : α}
    (h : (Action.markLine line >>= f).run w = .ok a w') :
    (f ()).run (w.marked line) = .ok a w' := by
  rwa [Action.bind_of_ok (markLine_run line w)] at h

mutual

/-- Behind a node the line is the one in front of it, or one that the node has marked. -/
theorem node_shows (hr : reach.Returns) : ∀ (n : Node) {scope : Scope} {lines : List Nat}
    {w w' : World} {out : Output}, Shows b lines w → (node reach scope n).run w = .ok out w' →
      Shows b (lines ++ n.lines) w'
  | .data _ _, _, _, _, _, _, hw, h => by
    cases h
    exact hw.mono (List.subset_append_left _ _)
  | .output p code escaped, scope, lines, w, w', out, hw, h => by
    rw [node] at h
    obtain ⟨v, w₁, hv, h⟩ := Action.bind_ok (marked_ok h)
    obtain ⟨s, w₂, hs, h⟩ := Action.bind_ok h
    cases h
    exact (((hw.marked p.line).kept (evaluate_keeps _) hv).kept (textOf_keeps v) hs).mono
      (List.subset_append_right _ _)
  | .yielding p name fallback, scope, lines, w, w', out, hw, h => by
    rw [node] at h
    exact ((hw.marked p.line).kept (hr.yielding name fallback) (marked_ok h)).mono
      (List.subset_append_right _ _)
  | .including p name given, scope, lines, w, w', out, hw, h => by
    rw [node] at h
    have hgiven : (givenData reach scope given >>= reach.including name).run (w.marked p.line) =
        .ok out w' := by
      cases given <;> exact marked_ok h
    obtain ⟨v, w₁, hv, h⟩ := Action.bind_ok hgiven
    exact (((hw.marked p.line).kept (givenData_keeps scope given) hv).kept
      (hr.including name v) h).mono (List.subset_append_right _ _)
  | .conditional p t body others otherwise, scope, lines, w, w', out, hw, h => by
    rw [node] at h
    obtain ⟨holds, w₁, ht, h⟩ := Action.bind_ok (marked_ok h)
    have hw := (hw.marked p.line).kept (test_keeps scope t) ht
    cases holds with
    | true =>
      refine (nodes_shows hr body hw h).mono fun k hk => ?_
      simp only [Node.lines, List.mem_append, List.mem_cons] at hk ⊢
      grind
    | false =>
      refine (branches_shows hr others (fun hw h => nodes_shows hr otherwise hw h) hw h).mono
        fun k hk => ?_
      simp only [Node.lines, List.mem_append, List.mem_cons] at hk ⊢
      grind
  | .loop p k target source body, scope, lines, w, w', out, hw, h => by
    rw [node_loop] at h
    obtain ⟨it, w₁, hs, h⟩ := Action.bind_ok (marked_ok h)
    have hw := (hw.marked p.line).kept (started_keeps scope p target source body) hs
    have hloop : Shows b (p.line :: Node.linesOf body) w' :=
      eachItem_shows (fun hw h => nodes_shows hr body hw h) (List.subset_cons_self _ _) _
        (hw.mono (List.cons_subset_cons _ (List.nil_subset _))) h
    exact hloop.mono (List.subset_append_right _ _)
  | .whileLoop p t body, scope, lines, w, w', out, hw, h => by
    rw [node_while] at h
    have hloop := whileTrue_shows (fun hw h => nodes_shows hr body hw h) _ (hw.marked p.line)
      (marked_ok h)
    refine hloop.mono fun k hk => ?_
    rw [List.mem_singleton.mp hk]
    exact List.mem_append_right _ List.mem_cons_self

theorem nodes_shows (hr : reach.Returns) : ∀ (ns : List Node) {scope : Scope} {lines : List Nat}
    {w w' : World} {out out' : Output}, Shows b lines w →
      (nodes reach scope out ns).run w = .ok out' w' → Shows b (lines ++ Node.linesOf ns) w'
  | [], _, _, _, _, _, _, hw, h => by
    cases h
    exact hw.mono (List.subset_append_left _ _)
  | n :: ns, scope, lines, w, w', out, out', hw, h => by
    rw [nodes] at h
    obtain ⟨more, w₁, hn, h⟩ := Action.bind_ok h
    have hns := nodes_shows hr ns (node_shows hr n hw hn) h
    rwa [List.append_assoc] at hns

theorem branches_shows (hr : reach.Returns) : ∀ (others : List (Code × List Node))
    {scope : Scope} {lines : List Nat} {otherwise : List Node} {w w' : World} {out : Output},
    (∀ {lines w w' out}, Shows b lines w → (nodes reach scope #[] otherwise).run w = .ok out w' →
      Shows b (lines ++ Node.linesOf otherwise) w') → Shows b lines w →
    (branches reach scope (nodes reach scope #[] otherwise) others).run w = .ok out w' →
      Shows b (lines ++ (Node.linesOfOthers others ++ Node.linesOf otherwise)) w'
  | [], _, _, _, _, _, _, ho, hw, h => ho hw h
  | (t, body) :: others, scope, lines, otherwise, w, w', out, ho, hw, h => by
    rw [branches] at h
    obtain ⟨taken, w₁, hb, h⟩ := Action.bind_ok h
    cases taken with
    | none =>
      have hw := (hw.marked t.position.line).kept (test_keeps scope t) (branch_none hb)
      refine (branches_shows hr others ho hw h).mono fun k hk => ?_
      simp only [Node.linesOfOthers, Node.linesOfOther, List.mem_append, List.mem_cons] at hk ⊢
      grind
    | some taken =>
      cases h
      rw [branch] at hb
      obtain ⟨holds, w₂, ht, hb⟩ := Action.bind_ok (marked_ok hb)
      have hw := (hw.marked t.position.line).kept (test_keeps scope t) ht
      cases holds with
      | false => cases hb
      | true =>
        obtain ⟨out', w₃, hbody, hb⟩ := Action.bind_ok hb
        cases hb
        refine (nodes_shows hr body hw hbody).mono fun k hk => ?_
        simp only [Node.linesOfOthers, Node.linesOfOther, List.mem_append, List.mem_cons] at hk ⊢
        grind

end

mutual

/-- At a moment of a node the boundary shows the line of the construct at work, unless this is a
loop that has made passes. -/
theorem VisitsNode.shows (hr : reach.Returns) : ∀ {scope : Scope} {n : Node} {lines : List Nat}
    {w : World} {m : Moment}, VisitsNode reach scope n w m → Shows b lines w →
      Shows b (m.line :: m.passed) m.world
  | _, _, _, _, _, .shown, hw => hw.marked _
  | _, _, _, _, _, .place, hw => hw.marked _
  | _, _, _, _, _, .inclusion, hw => hw.marked _
  | _, _, _, _, _, .test, hw => hw.marked _
  | _, _, _, _, _, .taken ht hm, hw => hm.shows hr ((hw.marked _).kept (test_keeps _ _) ht)
  | _, _, _, _, _, .others ht hm, hw => hm.shows hr ((hw.marked _).kept (test_keeps _ _) ht)
  | _, _, _, _, _, .source, hw => hw.marked _
  | _, _, _, _, _, .passes hs hm, hw =>
    hm.shows hr (List.nil_subset _) ((hw.marked _).kept (started_keeps _ _ _ _ _) hs)
  | _, _, _, _, _, .tests hm, hw => hm.shows hr (hw.marked _)

theorem Visits.shows (hr : reach.Returns) : ∀ {scope : Scope} {ns : List Node} {lines : List Nat}
    {w : World} {m : Moment}, Visits reach scope ns w m → Shows b lines w →
      Shows b (m.line :: m.passed) m.world
  | _, _, _, _, _, .head hm, hw => hm.shows hr hw
  | _, _, _, _, _, .tail hn hm, hw => hm.shows hr (node_shows hr _ hw hn)

theorem VisitsBranches.shows (hr : reach.Returns) : ∀ {scope : Scope}
    {others : List (Code × List Node)} {otherwise : List Node} {lines : List Nat} {w : World}
    {m : Moment}, VisitsBranches reach scope others otherwise w m → Shows b lines w →
      Shows b (m.line :: m.passed) m.world
  | _, _, _, _, _, _, .otherwise hm, hw => hm.shows hr hw
  | _, _, _, _, _, _, .test, hw => hw.marked _
  | _, _, _, _, _, _, .taken ht hm, hw => hm.shows hr ((hw.marked _).kept (test_keeps _ _) ht)
  | _, _, _, _, _, _, .others ht hm, hw => hm.shows hr ((hw.marked _).kept (test_keeps _ _) ht)

theorem VisitsPasses.shows (hr : reach.Returns) : ∀ {scope : Scope} {p : Text.Position}
    {target : Code} {body : List Node} {it : Value} {fuel : Nat} {passed : List Nat} {w : World}
    {m : Moment}, VisitsPasses reach scope p target body it fuel passed w m →
      passed ⊆ Node.linesOf body → Shows b (p.line :: passed) w →
        Shows b (m.line :: m.passed) m.world
  | _, _, _, _, _, _, _, _, _, .endless, _, hw => hw
  | _, _, _, _, _, _, _, _, _, .item, _, hw => hw
  | _, _, _, _, _, _, _, _, _, .target hi, _, hw => hw.kept (evaluate_keeps _) hi
  | _, _, _, _, _, _, _, _, _, .body hi ha hm, _, hw =>
    hm.shows hr ((hw.kept (evaluate_keeps _) hi).kept (evaluate_keeps _) ha)
  | _, p, _, body, _, _, passed, _, _, .next hi hp hm, hpassed, hw => by
    obtain ⟨⟨⟩, w₃, ha, hp⟩ := Action.bind_ok hp
    have hw := (hw.kept (evaluate_keeps _) hi).kept (evaluate_keeps _) ha
    refine hm.shows hr (List.Subset.refl _) ((nodes_shows hr body hw hp).mono ?_)
    exact List.append_subset.mpr ⟨List.cons_subset_cons _ hpassed, List.subset_cons_self _ _⟩

theorem VisitsTests.shows (hr : reach.Returns) : ∀ {scope : Scope} {p : Text.Position} {t : Code}
    {body : List Node} {fuel : Nat} {w : World} {m : Moment},
    VisitsTests reach scope p t body fuel w m → Shows b [p.line] w →
      Shows b (m.line :: m.passed) m.world
  | _, _, _, _, _, _, _, .endless, hw => hw
  | _, _, _, _, _, _, _, .test, hw => hw
  | _, _, _, _, _, _, _, .body ht hm, hw => hm.shows hr (hw.kept (test_keeps _ _) ht)
  | _, _, _, _, _, _, _, .next ht hp hm, hw =>
    hm.shows hr (whilePass_shows (fun hw h => nodes_shows hr _ hw h)
      (hw.kept (test_keeps _ _) ht) hp)

end

mutual

/-- The lines that may be shown at a moment of a node are among those the node marks. -/
theorem VisitsNode.lines_subset : ∀ {scope : Scope} {n : Node} {w : World} {m : Moment},
    VisitsNode reach scope n w m → m.line :: m.passed ⊆ n.lines
  | _, _, _, _, .shown => List.Subset.refl _
  | _, _, _, _, .place => List.Subset.refl _
  | _, _, _, _, .inclusion => List.Subset.refl _
  | _, _, _, _, .test => List.cons_subset_cons _ (List.nil_subset _)
  | _, _, _, _, .taken _ hm => List.subset_cons_of_subset _ <|
    List.subset_append_of_subset_left _ (List.subset_append_of_subset_left _ hm.lines_subset)
  | _, _, _, _, .others _ hm => List.subset_cons_of_subset _ <| by
    rw [List.append_assoc]
    exact List.subset_append_of_subset_right _ hm.lines_subset
  | _, _, _, _, .source => List.cons_subset_cons _ (List.nil_subset _)
  | _, _, _, _, .passes _ hm => hm.lines_subset (List.nil_subset _)
  | _, _, _, _, .tests hm => hm.lines_subset

theorem Visits.lines_subset : ∀ {scope : Scope} {ns : List Node} {w : World} {m : Moment},
    Visits reach scope ns w m → m.line :: m.passed ⊆ Node.linesOf ns
  | _, _, _, _, .head hm => List.subset_append_of_subset_left _ hm.lines_subset
  | _, _, _, _, .tail _ hm => List.subset_append_of_subset_right _ hm.lines_subset

theorem VisitsBranches.lines_subset : ∀ {scope : Scope} {others : List (Code × List Node)}
    {otherwise : List Node} {w : World} {m : Moment},
    VisitsBranches reach scope others otherwise w m →
      m.line :: m.passed ⊆ Node.linesOfOthers others ++ Node.linesOf otherwise
  | _, _, _, _, _, .otherwise hm => hm.lines_subset
  | _, _, _, _, _, .test => List.cons_subset_cons _ (List.nil_subset _)
  | _, _, _, _, _, .taken _ hm => List.subset_append_of_subset_left _ <|
    List.subset_append_of_subset_left _ (List.subset_cons_of_subset _ hm.lines_subset)
  | _, _, _, _, _, .others _ hm => by
    rw [Node.linesOfOthers, List.append_assoc]
    exact List.subset_append_of_subset_right _ hm.lines_subset

theorem VisitsPasses.lines_subset : ∀ {scope : Scope} {p : Text.Position} {target : Code}
    {body : List Node} {it : Value} {fuel : Nat} {passed : List Nat} {w : World} {m : Moment},
    VisitsPasses reach scope p target body it fuel passed w m → passed ⊆ Node.linesOf body →
      m.line :: m.passed ⊆ p.line :: Node.linesOf body
  | _, _, _, _, _, _, _, _, _, .endless, hpassed => List.cons_subset_cons _ hpassed
  | _, _, _, _, _, _, _, _, _, .item, hpassed => List.cons_subset_cons _ hpassed
  | _, _, _, _, _, _, _, _, _, .target _, hpassed => List.cons_subset_cons _ hpassed
  | _, _, _, _, _, _, _, _, _, .body _ _ hm, _ => List.subset_cons_of_subset _ hm.lines_subset
  | _, _, _, _, _, _, _, _, _, .next _ _ hm, _ => hm.lines_subset (List.Subset.refl _)

theorem VisitsTests.lines_subset : ∀ {scope : Scope} {p : Text.Position} {t : Code}
    {body : List Node} {fuel : Nat} {w : World} {m : Moment},
    VisitsTests reach scope p t body fuel w m →
      m.line :: m.passed ⊆ p.line :: Node.linesOf body
  | _, _, _, _, _, _, _, .endless => List.cons_subset_cons _ (List.nil_subset _)
  | _, _, _, _, _, _, _, .test => List.cons_subset_cons _ (List.nil_subset _)
  | _, _, _, _, _, _, _, .body _ hm => List.subset_cons_of_subset _ hm.lines_subset
  | _, _, _, _, _, _, _, .next _ _ hm => hm.lines_subset

end

end Render

end Stencil
