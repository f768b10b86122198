import Stencil.Proofs.Loading

/-!
# Moments of a render

Rendering a body comes down to what its directives and interpolations do themselves, each in the
state that those before it have left. These are the moments of a render. A render that stops has
stopped at one of them, and at each of them the boundary shows the line of the construct that is
at work; only a loop that has made a pass goes on at whatever line its body has shown last.
-/

namespace Stencil

variable {α β : Type}

def World.marked (w : World) (line : Nat) : World :=
  { w with boundary := w.boundary.map (·.atLine line) }

namespace Action

theorem bind_error {x : Action α} {f : α → Action β} {w w' : World} {s : Stop}
    (h : (x >>= f).run w = .error s w') :
    x.run w = .error s w' ∨ ∃ a w₁, x.run w = .ok a w₁ ∧ (f a).run w₁ = .error s w' := by
  rw [EStateM.run_bind] at h
  cases hx : x.run w with
  | ok a w₁ =>
    rw [hx] at h
    exact .inr ⟨a, w₁, rfl, h⟩
  | error s' w₁ =>
    rw [hx] at h
    cases h
    exact .inl rfl

theorem bind_of_error {x : Action α} {w w' : World} {s : Stop} (h : x.run w = .error s w')
    (f : α → Action β) : (x >>= f).run w = .error s w' := by
  rw [EStateM.run_bind, h]

theorem bind_of_ok {x : Action α} {w w₁ : World} {a : α} (h : x.run w = .ok a w₁)
    (f : α → Action β) : (x >>= f).run w = (f a).run w₁ := by
  rw [EStateM.run_bind, h]

/-- An action that ends well comes back to the boundary it began in, at the same line. -/
def Keeps (x : Action α) : Prop := ∀ w a w', x.run w = .ok a w' → w'.boundary = w.boundary

namespace Keeps

theorem pure (a : α) : Keeps (Pure.pure a) := by
  rintro w a' w' ⟨⟩
  rfl

theorem bind {x : Action α} {f : α → Action β} (hx : Keeps x) (hf : ∀ a, Keeps (f a)) :
    Keeps (x >>= f) := by
  intro w b w' h
  obtain ⟨a, w₁, hrun, hrest⟩ := bind_ok h
  exact (hf a _ _ _ hrest).trans (hx _ _ _ hrun)

theorem evaluateUnder (calls : Nat) (e : Eval α) : Keeps (Action.evaluateUnder calls e) := by
  intro w a w' h
  rw [evaluateUnder_ok h]

theorem within (b : Boundary) (x : Action α) : Keeps (Action.within b x) := by
  intro w a w' h
  change Action.within b x w = .ok a w' at h
  unfold Action.within at h
  split at h
  · cases h
    rfl
  · cases h

end Keeps

end Action

namespace Node

mutual

def lines : Node → List Nat
  | .data _ _ => []
  | .output p _ _ | .yielding p _ _ | .including p _ _ => [p.line]
  | .conditional p _ body others otherwise =>
    p.line :: (linesOf body ++ linesOfOthers others ++ linesOf otherwise)
  | .loop p _ _ _ body | .whileLoop p _ body => p.line :: linesOf body

def linesOf : List Node → List Nat
  | [] => []
  | n :: ns => lines n ++ linesOf ns

def linesOfOthers : List (Code × List Node) → List Nat
  | [] => []
  | o :: os => linesOfOther o ++ linesOfOthers os

def linesOfOther : Code × List Node → List Nat
  | (test, body) => test.position.line :: linesOf body

end

end Node

namespace Render

section Loops

variable (reach : Reach) (scope : Scope)

def loopScope (p : Text.Position) (target : Code) (body : List Node) : LoopScope :=
  let names := target.expr.storedNames
  ⟨p, names, Node.mention "loop" body && !names.contains "loop"⟩

def started (p : Text.Position) (target source : Code) (body : List Node) : Action Value := do
  let v ← evalCode reach scope source
  reach.evaluate (startLoop reach.ev scope (loopScope p target body) (Node.mention "loop" body)
    (sourceValue v))

def assigned (p : Text.Position) (target : Code) (body : List Node) (v : Value) : Action Unit :=
  reach.evaluate (bindTarget reach.ev scope (loopScope p target body) target.expr v)

def innerScope (p : Text.Position) (target : Code) (body : List Node) : Scope :=
  { scope with loops := loopScope p target body :: scope.loops }

def itemPass (p : Text.Position) (target : Code) (body : List Node) (v : Value) :
    Action Output := do
  assigned reach scope p target body v
  nodes reach (innerScope scope p target body) #[] body

def whilePass (p : Text.Position) (body : List Node) : Action Output := do
  let out ← nodes reach scope #[] body
  Action.markLine p.line
  return out

theorem node_loop (p : Text.Position) (k : LoopKeyword) (target source : Code)
    (body : List Node) : node reach scope (.loop p k target source body) = (do
      Action.markLine p.line
      let it ← started reach scope p target source body
      eachItem reach it (itemPass reach scope p target body) Evaluator.mostItems #[]) := by
  rw [node]
  simp only [started, bind_assoc]
  rfl

theorem node_while (p : Text.Position) (t : Code) (body : List Node) :
    node reach scope (.whileLoop p t body) = (do
      Action.markLine p.line
      whileTrue (test reach scope t) (whilePass reach scope p body) Evaluator.mostItems #[]) := by
  rw [node]
  rfl

end Loops

/-- What a directive or interpolation does itself, apart from the nodes inside it. -/
inductive Own
  | shown (scope : Scope) (code : Code)
  | test (scope : Scope) (code : Code)
  /-- The iterator of a loop is made from its source. -/
  | source (scope : Scope) (p : Text.Position) (target source : Code) (body : List Node)
  /-- A loop asks for its next item. -/
  | item (iterator : Value)
  /-- A loop assigns an item to its targets. -/
  | target (scope : Scope) (p : Text.Position) (target : Code) (body : List Node) (v : Value)
  /-- A loop goes on beyond the most passes it may make. -/
  | endless
  | place (name fallback : String)
  | inclusion (scope : Scope) (name : String) (given : Option Code)

def givenData (reach : Reach) (scope : Scope) (given : Option Code) : Action Value :=
  match given with
  | some code => evalCode reach scope code
  | none => reach.evaluate (Eval.newDict #[])

/-- What is done, with all that is rendered on its behalf in other templates. -/
def Own.perform (reach : Reach) : Own → Action Unit
  | .shown scope code => do
    let _ ← textOf (← evalCode reach scope code)
    return ()
  | .test scope code => do
    let _ ← Render.test reach scope code
    return ()
  | .source scope p t v body => do
    let _ ← started reach scope p t v body
    return ()
  | .item it => do
    let _ ← reach.evaluate (reach.ev.next it)
    return ()
  | .target scope p t body v => assigned reach scope p t body v
  | .endless => throw .outOfSteps
  | .place name fallback => do
    let _ ← reach.yielding name fallback
    return ()
  | .inclusion scope name given => do
    let _ ← reach.including name (← givenData reach scope given)
    return ()

/-- Something is being done: by a construct at `line`, in the state `world`. If it is a loop that
has made passes, `passed` are the lines of its body. -/
structure Moment where
  own : Own
  line : Nat
  passed : List Nat
  world : World

mutual

inductive VisitsNode (reach : Reach) : Scope → Node → World → Moment → Prop
  | shown {scope : Scope} {p : Text.Position} {code : Code} {escaped : Bool} {w : World} :
      VisitsNode reach scope (.output p code escaped) w
        ⟨.shown scope code, p.line, [], w.marked p.line⟩
  | place {scope : Scope} {p : Text.Position} {name fallback : String} {w : World} :
      VisitsNode reach scope (.yielding p name fallback) w
        ⟨.place name fallback, p.line, [], w.marked p.line⟩
  | inclusion {scope : Scope} {p : Text.Position} {name : String} {given : Option Code}
      {w : World} :
      VisitsNode reach scope (.including p name given) w
        ⟨.inclusion scope name given, p.line, [], w.marked p.line⟩
  | test {scope : Scope} {p : Text.Position} {t : Code} {body otherwise : List Node}
      {others : List (Code × List Node)} {w : World} :
      VisitsNode reach scope (.conditional p t body others otherwise) w
        ⟨.test scope t, p.line, [], w.marked p.line⟩
  | taken {scope : Scope} {p : Text.Position} {t : Code} {body otherwise : List Node}
      {others : List (Code × List Node)} {w w₁ : World} {m : Moment}
      (ht : (Render.test reach scope t).run (w.marked p.line) = .ok true w₁)
      (hm : Visits reach scope body w₁ m) :
      VisitsNode reach scope (.conditional p t body others otherwise) w m
  | others {scope : Scope} {p : Text.Position} {t : Code} {body otherwise : List Node}
      {others : List (Code × List Node)} {w w₁ : World} {m : Moment}
      (ht : (Render.test reach scope t).run (w.marked p.line) = .ok false w₁)
      (hm : VisitsBranches reach scope others otherwise w₁ m) :
      VisitsNode reach scope (.conditional p t body others otherwise) w m
  | source {scope : Scope} {p : Text.Position} {k : LoopKeyword} {target source : Code}
      {body : List Node} {w : World} :
      VisitsNode reach scope (.loop p k target source body) w
        ⟨.source scope p target source body, p.line, [], w.marked p.line⟩
  | passes {scope : Scope} {p : Text.Position} {k : LoopKeyword} {target source : Code}
      {body : List Node} {it : Value} {w w₁ : World} {m : Moment}
      (hs : (started reach scope p target source body).run (w.marked p.line) = .ok it w₁)
      (hm : VisitsPasses reach scope p target body it Evaluator.mostItems [] w₁ m) :
      VisitsNode reach scope (.loop p k target source body) w m
  | tests {scope : Scope} {p : Text.Position} {t : Code} {body : List Node} {w : World}
      {m : Moment}
      (hm : VisitsTests reach scope p t body Evaluator.mostItems (w.marked p.line) m) :
      VisitsNode reach scope (.whileLoop p t body) w m

/-- Rendering nodes one after the other comes to a moment. -/
inductive Visits (reach : Reach) : Scope → List Node → World → Moment → Prop
  | head {scope : Scope} {n : Node} {ns : List Node} {w : World} {m : Moment}
      (hm : VisitsNode reach scope n w m) : Visits reach scope (n :: ns) w m
  | tail {scope : Scope} {n : Node} {ns : List Node} {out : Output} {w w₁ : World} {m : Moment}
      (hn : (node reach scope n).run w = .ok out w₁) (hm : Visits reach scope ns w₁ m) :
      Visits reach scope (n :: ns) w m

/-- The branches of a conditional behind its first test come to a moment. -/
inductive VisitsBranches (reach : Reach) :
    Scope → List (Code × List Node) → List Node → World → Moment → Prop
  | otherwise {scope : Scope} {otherwise : List Node} {w : World} {m : Moment}
      (hm : Visits reach scope otherwise w m) :
      VisitsBranches reach scope [] otherwise w m
  | test {scope : Scope} {t : Code} {body otherwise : List Node}
      {others : List (Code × List Node)} {w : World} :
      VisitsBranches reach scope ((t, body) :: others) otherwise w
        ⟨.test scope t, t.position.line, [], w.marked t.position.line⟩
  | taken {scope : Scope} {t : Code} {body otherwise : List Node}
      {others : List (Code × List Node)} {w w₁ : World} {m : Moment}
      (ht : (Render.test reach scope t).run (w.marked t.position.line) = .ok true w₁)
      (hm : Visits reach scope body w₁ m) :
      VisitsBranches reach scope ((t, body) :: others) otherwise w m
  | others {scope : Scope} {t : Code} {body otherwise : List Node}
      {others : List (Code × List Node)} {w w₁ : World} {m : Moment}
      (ht : (Render.test reach scope t).run (w.marked t.position.line) = .ok false w₁)
      (hm : VisitsBranches reach scope others otherwise w₁ m) :
      VisitsBranches reach scope ((t, body) :: others) otherwise w m

/-- A loop over the items of `it` comes to a moment; `passed` are the lines of the body if it was
passed before. -/
inductive VisitsPasses (reach : Reach) :
    Scope → Text.Position → Code → List Node → Value → Nat → List Nat → World → Moment → Prop
  | endless {scope : Scope} {p : Text.Position} {target : Code} {body : List Node} {it : Value}
      {passed : List Nat} {w : World} :
      VisitsPasses reach scope p target body it 0 passed w ⟨.endless, p.line, passed, w⟩
  | item {scope : Scope} {p : Text.Position} {target : Code} {body : List Node} {it : Value}
      {fuel : Nat} {passed : List Nat} {w : World} :
      VisitsPasses reach scope p target body it (fuel + 1) passed w
        ⟨.item it, p.line, passed, w⟩
  | target {scope : Scope} {p : Text.Position} {target : Code} {body : List Node} {it v : Value}
      {fuel : Nat} {passed : List Nat} {w w₁ : World}
      (hi : (reach.evaluate (reach.ev.next it)).run w = .ok (some v) w₁) :
      VisitsPasses reach scope p target body it (fuel + 1) passed w
        ⟨.target scope p target body v, p.line, passed, w₁⟩
  | body {scope : Scope} {p : Text.Position} {target : Code} {body : List Node} {it v : Value}
      {fuel : Nat} {passed : List Nat} {w w₁ w₂ : World} {m : Moment}
      (hi : (reach.evaluate (reach.ev.next it)).run w = .ok (some v) w₁)
      (ha : (assigned reach scope p target body v).run w₁ = .ok () w₂)
      (hm : Visits reach (innerScope scope p target body) body w₂ m) :
      VisitsPasses reach scope p target body it (fuel + 1) passed w m
  | next {scope : Scope} {p : Text.Position} {target : Code} {body : List Node} {it v : Value}
      {fuel : Nat} {passed : List Nat} {out : Output} {w w₁ w₂ : World} {m : Moment}
      (hi : (reach.evaluate (reach.ev.next it)).run w = .ok (some v) w₁)
      (hp : (itemPass reach scope p target body v).run w₁ = .ok out w₂)
      (hm : VisitsPasses reach scope p target body it fuel (Node.linesOf body) w₂ m) :
      VisitsPasses reach scope p target body it (fuel + 1) passed w m

/-- A loop that tests before every pass comes to a moment. -/
inductive VisitsTests (reach : Reach) :
    Scope → Text.Position → Code → List Node → Nat → World → Moment → Prop
  | endless {scope : Scope} {p : Text.Position} {t : Code} {body : List Node} {w : World} :
      VisitsTests reach scope p t body 0 w ⟨.endless, p.line, [], w⟩
  | test {scope : Scope} {p : Text.Position} {t : Code} {body : List Node} {fuel : Nat}
      {w : World} :
      VisitsTests reach scope p t body (fuel + 1) w ⟨.test scope t, p.line, [], w⟩
  | body {scope : Scope} {p : Text.Position} {t : Code} {body : List Node} {fuel : Nat}
      {w w₁ : World} {m : Moment} (ht : (Render.test reach scope t).run w = .ok true w₁)
      (hm : Visits reach scope body w₁ m) : VisitsTests reach scope p t body (fuel + 1) w m
  | next {scope : Scope} {p : Text.Position} {t : Code} {body : List Node} {fuel : Nat}
      {out : Output} {w w₁ w₂ : World} {m : Moment}
      (ht : (Render.test reach scope t).run w = .ok true w₁)
      (hp : (whilePass reach scope p body).run w₁ = .ok out w₂)
      (hm : VisitsTests reach scope p t body fuel w₂ m) :
      VisitsTests reach scope p t body (fuel + 1) w m

end

section Stopped

variable {reach : Reach} {s : Stop}

def StopsAt (reach : Reach) (visits : Moment → Prop) (s : Stop) (w' : World) : Prop :=
  ∃ m, visits m ∧ (m.own.perform reach).run m.world = .error s w'

theorem StopsAt.mono {visits visits' : Moment → Prop} {w' : World}
    (h : StopsAt reach visits s w') (hv : ∀ m, visits m → visits' m) :
    StopsAt reach visits' s w' := by
  obtain ⟨m, hm, hstop⟩ := h
  exact ⟨m, hv m hm, hstop⟩

theorem markLine_run (line : Nat) (w : World) :
    (Action.markLine line).run w = .ok () (w.marked line) := rfl

theorem marked_stopped {line : Nat} {f : Unit → Action α} {w w' : World}
    (h : (Action.markLine line >>= f).run w = .error s w') :
    (f ()).run (w.marked line) = .error s w' := by
  rwa [Action.bind_of_ok (markLine_run line w)] at h

theorem evalTest_stopped {scope : Scope} {t : Code} {w w' : World}
    (h : (test reach scope t).run w = .error s w') :
    ((Own.test scope t).perform reach).run w = .error s w' := Action.bind_of_error h _

/-- The induction is on the passes still allowed; a pass stops in its assignment or in its body. -/
theorem eachItem_stopped {scope : Scope} {p : Text.Position} {target : Code} {body : List Node}
    {it : Value}
    (hbody : ∀ {scope w w'}, (nodes reach scope #[] body).run w = .error s w' →
      StopsAt reach (Visits reach scope body w) s w') (fuel : Nat) :
    ∀ {passed : List Nat} {out : Output} {w w' : World},
      (eachItem reach it (itemPass reach scope p target body) fuel out).run w = .error s w' →
        StopsAt reach (VisitsPasses reach scope p target body it fuel passed w) s w' := by
  induction fuel with
  | zero =>
    rintro _ _ _ _ ⟨⟩
    exact ⟨_, .endless, rfl⟩
  | succ fuel ih =>
    intro passed out w w' h
    unfold eachItem at h
    rcases Action.bind_error h with h | ⟨next, w₁, hi, h⟩
    · exact ⟨_, .item, Action.bind_of_error h _⟩
    · cases next with
      | none => cases h
      | some v =>
        rcases Action.bind_error h with h | ⟨more, w₂, hp, h⟩
        · rcases Action.bind_error h with h | ⟨⟨⟩, w₂, ha, h⟩
          · exact ⟨_, .target hi, h⟩
          · exact (hbody h).mono fun m hm => .body hi ha hm
        · exact (ih h).mono fun m hm => .next hi hp hm

theorem whileTrue_stopped {scope : Scope} {p : Text.Position} {t : Code} {body : List Node}
    (hbody : ∀ {w w'}, (nodes reach scope #[] body).run w = .error s w' →
      StopsAt reach (Visits reach scope body w) s w') (fuel : Nat) :
    ∀ {out : Output} {w w' : World},
      (whileTrue (test reach scope t) (whilePass reach scope p body) fuel out).run w =
        .error s w' → StopsAt reach (VisitsTests reach scope p t body fuel w) s w' := by
  induction fuel with
  | zero =>
    rintro _ _ _ ⟨⟩
    exact ⟨_, .endless, rfl⟩
  | succ fuel ih =>
    intro out w w' h
    unfold whileTrue at h
    rcases Action.bind_error h with h | ⟨again, w₁, ht, h⟩
    · exact ⟨_, .test, evalTest_stopped h⟩
    · cases again with
      | false => cases h
      | true =>
        rcases Action.bind_error h with h | ⟨more, w₂, hp, h⟩
        · rcases Action.bind_error h with h | ⟨more, w₂, _, h⟩
          · exact (hbody h).mono fun m hm => .body ht hm
          · cases marked_stopped h
        · exact (ih h).mono fun m hm => .next ht hp hm

theorem branch_none {scope : Scope} {t : Code} {body : List Node} {w w₁ : World}
    (h : (branch reach scope (t, body)).run w = .ok none w₁) :
    (test reach scope t).run (w.marked t.position.line) = .ok false w₁ := by
  rw [branch, Action.bind_of_ok (markLine_run _ w)] at h
  obtain ⟨holds, w₂, ht, h⟩ := Action.bind_ok h
  cases holds with
  | false =>
    cases h
    exact ht
  | true =>
    obtain ⟨_, _, _, h⟩ := Action.bind_ok h
    cases h

mutual

theorem node_stopped : ∀ (n : Node) {scope : Scope} {w w' : World},
    (node reach scope n).run w = .error s w' →
      StopsAt reach (VisitsNode reach scope n w) s w'
  | .data _ _, _, _, _, h => nomatch h
  | .output p code escaped, scope, w, w', h => by
    rw [node] at h
    refine ⟨_, .shown, ?_⟩
    rcases Action.bind_error (marked_stopped h) with h | ⟨v, w₁, hv, h⟩
    · exact Action.bind_of_error h _
    · rcases Action.bind_error h with h | ⟨_, _, _, h⟩
      · exact (Action.bind_of_ok hv _).trans (Action.bind_of_error h _)
      · cases h
  | .yielding p name fallback, scope, w, w', h => by
    rw [node] at h
    exact ⟨_, .place, Action.bind_of_error (marked_stopped h) _⟩
  | .including p name given, scope, w, w', h => by
    rw [node] at h
    refine ⟨_, .inclusion, ?_⟩
    have hgiven : (givenData reach scope given >>= reach.including name).run (w.marked p.line) =
        .error s w' := by
      cases given <;> exact marked_stopped h
    rcases Action.bind_error hgiven with h | ⟨v, w₁, hv, h⟩
    · exact Action.bind_of_error h _
    · exact (Action.bind_of_ok hv _).trans (Action.bind_of_error h _)
  | .conditional p t body others otherwise, scope, w, w', h => by
    rw [node] at h
    rcases Action.bind_error (marked_stopped h) with h | ⟨holds, w₁, ht, h⟩
    · exact ⟨_, .test, evalTest_stopped h⟩
    · cases holds with
      | true => exact (nodes_stopped body h).mono fun m hm => .taken ht hm
      | false =>
        exact (branches_stopped others (fun h => nodes_stopped otherwise h) h).mono
          fun m hm => .others ht hm
  | .loop p k target source body, scope, w, w', h => by
    rw [node_loop] at h
    rcases Action.bind_error (marked_stopped h) with h | ⟨it, w₁, hs, h⟩
    · exact ⟨_, .source, Action.bind_of_error h _⟩
    · exact (eachItem_stopped (fun h => nodes_stopped body h) _ h).mono fun m hm => .passes hs hm
  | .whileLoop p t body, scope, w, w', h => by
    rw [node_while] at h
    exact (whileTrue_stopped (fun h => nodes_stopped body h) _ (marked_stopped h)).mono
      fun m hm => .tests hm

theorem nodes_stopped : ∀ (ns : List Node) {scope : Scope} {out : Output} {w w' : World},
    (nodes reach scope out ns).run w = .error s w' →
      StopsAt reach (Visits reach scope ns w) s w'
  | [], _, _, _, _, h => nomatch h
  | n :: ns, scope, out, w, w', h => by
    rw [nodes] at h
    rcases Action.bind_error h with h | ⟨more, w₁, hn, h⟩
    · exact (node_stopped n h).mono fun m hm => .head hm
    · exact (nodes_stopped ns h).mono fun m hm => .tail hn hm

theorem branches_stopped : ∀ (others : List (Code × List Node)) {scope : Scope}
    {otherwise : List Node} {w w' : World},
    (∀ {w w'}, (nodes reach scope #[] otherwise).run w = .error s w' →
      StopsAt reach (Visits reach scope otherwise w) s w') →
    (branches reach scope (nodes reach scope #[] otherwise) others).run w = .error s w' →
      StopsAt reach (VisitsBranches reach scope others otherwise w) s w'
  | [], _, _, _, _, ho, h => (ho h).mono fun m hm => .otherwise hm
  | (t, body) :: others, scope, otherwise, w, w', ho, h => by
    rw [branches] at h
    rcases Action.bind_error h with h | ⟨taken, w₁, hb, h⟩
    · rw [branch] at h
      rcases Action.bind_error (marked_stopped h) with h | ⟨holds, w₂, ht, h⟩
      · exact ⟨_, .test, evalTest_stopped h⟩
      · cases holds with
        | false => cases h
        | true =>
          rcases Action.bind_error h with h | ⟨_, _, _, h⟩
          · exact (nodes_stopped body h).mono fun m hm => .taken ht hm
          · cases h
    · cases taken with
      | some out => cases h
      | none => exact (branches_stopped others ho h).mono fun m hm => .others (branch_none hb) hm

end

end Stopped

end Render

end Stencil
