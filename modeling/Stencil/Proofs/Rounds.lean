import Stencil.Proofs.SafeRenders

/-!
# Rounds

A render of a body is at some of its nodes, inside of loops that are in their rounds: each has taken
an item from its iterator and assigned it. From there it goes on to the next node, to a branch, to
another pass. Whatever a render does is done at such a place.
-/

namespace Stencil

open Render

/-- A pass of a loop. -/
structure Round where
  position : Text.Position
  target : Code
  body : List Node
  /-- What the items are taken from. -/
  iterator : Value
  /-- The heap when the loop had been started. -/
  first : Heap
  pass : Nat
  /-- The heap when the item of this pass had been taken. -/
  taken : Heap
  item : Value

namespace Round

/-- The loop as an enclosing scope. -/
def scope (r : Round) : LoopScope := loopScope r.position r.target r.body

end Round

namespace Render

variable (reach : Reach)

/-- So many passes of a loop lead from one state to another. -/
inductive Passes (scope : Scope) (p : Text.Position) (target : Code) (body : List Node)
    (it : Value) : Nat → World → World → Prop
  | none {w : World} : Passes scope p target body it 0 w w
  | more {k : Nat} {v : Value} {out : Output} {w w₁ w₂ w₃ : World}
      (h : Passes scope p target body it k w w₁)
      (hi : (reach.evaluate (reach.ev.next it)).run w₁ = .ok (some v) w₂)
      (hp : (itemPass reach scope p target body v).run w₂ = .ok out w₃) :
      Passes scope p target body it (k + 1) w w₃

variable (scope₀ : Scope) (ns₀ : List Node) (w₀ : World)

/-- Rendering the nodes `ns₀` from `w₀` comes to where some nodes are to be rendered next, inside of
rounds, the innermost first. A further branch is a conditional of its own. -/
inductive At : List Round → Scope → List Node → World → Prop
  | start : At [] scope₀ ns₀ w₀
  | behind {rs : List Round} {scope : Scope} {n : Node} {ns : List Node} {out : Output}
      {w w₁ : World} (h : At rs scope (n :: ns) w) (hn : (node reach scope n).run w = .ok out w₁) :
      At rs scope ns w₁
  | taken {rs : List Round} {scope : Scope} {p : Text.Position} {t : Code}
      {body otherwise ns : List Node} {others : List (Code × List Node)} {w w₁ : World}
      (h : At rs scope (.conditional p t body others otherwise :: ns) w)
      (ht : (test reach scope t).run (w.marked p.line) = .ok true w₁) : At rs scope body w₁
  | other {rs : List Round} {scope : Scope} {p : Text.Position} {t t' : Code}
      {body body' otherwise ns : List Node} {others : List (Code × List Node)} {w w₁ : World}
      (h : At rs scope (.conditional p t body ((t', body') :: others) otherwise :: ns) w)
      (ht : (test reach scope t).run (w.marked p.line) = .ok false w₁) :
      At rs scope [.conditional t'.position t' body' others otherwise] w₁
  | otherwise {rs : List Round} {scope : Scope} {p : Text.Position} {t : Code}
      {body otherwise ns : List Node} {w w₁ : World}
      (h : At rs scope (.conditional p t body [] otherwise :: ns) w)
      (ht : (test reach scope t).run (w.marked p.line) = .ok false w₁) : At rs scope otherwise w₁
  | holds {rs : List Round} {scope : Scope} {p : Text.Position} {t : Code} {body ns : List Node}
      {w w₁ : World} (h : At rs scope (.whileLoop p t body :: ns) w)
      (ht : (test reach scope t).run (w.marked p.line) = .ok true w₁) : At rs scope body w₁
  | again {rs : List Round} {scope : Scope} {p : Text.Position} {t : Code} {body ns : List Node}
      {out : Output} {w w₁ w₂ : World} (h : At rs scope (.whileLoop p t body :: ns) w)
      (ht : (test reach scope t).run (w.marked p.line) = .ok true w₁)
      (hp : (whilePass reach scope p body).run w₁ = .ok out w₂) :
      At rs scope (.whileLoop p t body :: ns) w₂
  | round {rs : List Round} {scope : Scope} {p : Text.Position} {keyword : LoopKeyword}
      {target source : Code} {body ns : List Node} {it v : Value} {k : Nat}
      {w w₁ w₂ w₃ w₄ : World} (h : At rs scope (.loop p keyword target source body :: ns) w)
      (hs : (started reach scope p target source body).run (w.marked p.line) = .ok it w₁)
      (hp : Passes reach scope p target body it k w₁ w₂)
      (hi : (reach.evaluate (reach.ev.next it)).run w₂ = .ok (some v) w₃)
      (ha : (assigned reach scope p target body v).run w₃ = .ok () w₄) :
      At (⟨p, target, body, it, w₁.heap, k + 1, w₃.heap, v⟩ :: rs)
        (innerScope scope p target body) body w₄

/-- Something is done, inside of rounds and in a state. -/
inductive Does : List Round → Own → World → Prop
  | shown {rs : List Round} {scope : Scope} {p : Text.Position} {code : Code} {escaped : Bool}
      {ns : List Node} {w : World}
      (h : At reach scope₀ ns₀ w₀ rs scope (.output p code escaped :: ns) w) :
      Does rs (.shown scope code) (w.marked p.line)
  | test {rs : List Round} {scope : Scope} {p : Text.Position} {t : Code}
      {body otherwise ns : List Node} {others : List (Code × List Node)} {w : World}
      (h : At reach scope₀ ns₀ w₀ rs scope (.conditional p t body others otherwise :: ns) w) :
      Does rs (.test scope t) (w.marked p.line)
  | again {rs : List Round} {scope : Scope} {p : Text.Position} {t : Code} {body ns : List Node}
      {w : World} (h : At reach scope₀ ns₀ w₀ rs scope (.whileLoop p t body :: ns) w) :
      Does rs (.test scope t) (w.marked p.line)
  | source {rs : List Round} {scope : Scope} {p : Text.Position} {keyword : LoopKeyword}
      {target source : Code} {body ns : List Node} {w : World}
      (h : At reach scope₀ ns₀ w₀ rs scope (.loop p keyword target source body :: ns) w) :
      Does rs (.source scope p target source body) (w.marked p.line)
  | item {rs : List Round} {scope : Scope} {p : Text.Position} {keyword : LoopKeyword}
      {target source : Code} {body ns : List Node} {it : Value} {k : Nat} {w w₁ w₂ : World}
      (h : At reach scope₀ ns₀ w₀ rs scope (.loop p keyword target source body :: ns) w)
      (hs : (started reach scope p target source body).run (w.marked p.line) = .ok it w₁)
      (hp : Passes reach scope p target body it k w₁ w₂) : Does rs (.item it) w₂
  | target {rs : List Round} {scope : Scope} {p : Text.Position} {keyword : LoopKeyword}
      {target source : Code} {body ns : List Node} {it v : Value} {k : Nat} {w w₁ w₂ w₃ : World}
      (h : At reach scope₀ ns₀ w₀ rs scope (.loop p keyword target source body :: ns) w)
      (hs : (started reach scope p target source body).run (w.marked p.line) = .ok it w₁)
      (hp : Passes reach scope p target body it k w₁ w₂)
      (hi : (reach.evaluate (reach.ev.next it)).run w₂ = .ok (some v) w₃) :
      Does rs (.target scope p target body v) w₃
  | place {rs : List Round} {scope : Scope} {p : Text.Position} {name fallback : String}
      {ns : List Node} {w : World}
      (h : At reach scope₀ ns₀ w₀ rs scope (.yielding p name fallback :: ns) w) :
      Does rs (.place name fallback) (w.marked p.line)
  | inclusion {rs : List Round} {scope : Scope} {p : Text.Position} {name : String}
      {given : Option Code} {ns : List Node} {w : World}
      (h : At reach scope₀ ns₀ w₀ rs scope (.including p name given :: ns) w) :
      Does rs (.inclusion scope name given) (w.marked p.line)

section Visited

variable {reach scope₀ ns₀ w₀}

theorem At.loops_eq {rs : List Round} {scope : Scope} {ns : List Node} {w : World}
    (h : At reach scope₀ ns₀ w₀ rs scope ns w) :
    scope.loops = rs.map Round.scope ++ scope₀.loops := by
  induction h with
  | start => rfl
  | round _ _ _ _ _ ih => exact congrArg (_ :: ·) ih
  | behind _ _ ih | taken _ _ ih | other _ _ ih | otherwise _ _ ih | holds _ _ ih
  | again _ _ _ ih => exact ih

theorem Does.shown_loops {rs : List Round} {scope : Scope} {code : Code} {w : World}
    (h : Does reach scope₀ ns₀ w₀ rs (.shown scope code) w) :
    scope.loops = rs.map Round.scope ++ scope₀.loops := by
  cases h with
  | shown h => exact h.loops_eq

theorem marked_marked (w : World) (line : Nat) : (w.marked line).marked line = w.marked line := by
  unfold World.marked
  simp [Option.map_map, Function.comp_def, Boundary.atLine]

theorem whilePass_marked {scope : Scope} {p : Text.Position} {body : List Node} {out : Output}
    {w w₁ : World} (h : (whilePass reach scope p body).run w = .ok out w₁) :
    w₁.marked p.line = w₁ := by
  obtain ⟨out', w', -, h⟩ := Action.bind_ok h
  obtain ⟨_, w'', hmark, h⟩ := Action.bind_ok h
  cases hmark
  cases h
  exact marked_marked w' p.line

/-- Nothing is missed: what is done at a moment is done inside of rounds, but that a loop goes on
for too long. -/
def Moment.IsDone (reach : Reach) (scope₀ : Scope) (ns₀ : List Node) (w₀ : World) (m : Moment) :
    Prop :=
  m.own = .endless ∨ ∃ rs, Does reach scope₀ ns₀ w₀ rs m.own m.world

mutual

theorem VisitsNode.isDone : ∀ {scope : Scope} {n : Node} {w : World} {m : Moment},
    VisitsNode reach scope n w m → ∀ {rs : List Round} {ns : List Node},
      At reach scope₀ ns₀ w₀ rs scope (n :: ns) w → m.IsDone reach scope₀ ns₀ w₀
  | _, _, _, _, .shown, _, _, h => .inr ⟨_, .shown h⟩
  | _, _, _, _, .place, _, _, h => .inr ⟨_, .place h⟩
  | _, _, _, _, .inclusion, _, _, h => .inr ⟨_, .inclusion h⟩
  | _, _, _, _, .test, _, _, h => .inr ⟨_, .test h⟩
  | _, _, _, _, .taken ht hm, _, _, h => Visits.isDone hm (.taken h ht)
  | _, _, _, _, .others ht hm, _, _, h => VisitsBranches.isDone hm h ht
  | _, _, _, _, .source, _, _, h => .inr ⟨_, .source h⟩
  | _, _, _, _, .passes hs hm, _, _, h => VisitsPasses.isDone hm h hs .none
  | _, _, _, _, .tests hm, _, _, h => VisitsTests.isDone hm h rfl

theorem Visits.isDone : ∀ {scope : Scope} {ns : List Node} {w : World} {m : Moment},
    Visits reach scope ns w m → ∀ {rs : List Round}, At reach scope₀ ns₀ w₀ rs scope ns w →
      m.IsDone reach scope₀ ns₀ w₀
  | _, _, _, _, .head hm, _, h => VisitsNode.isDone hm h
  | _, _, _, _, .tail hn hm, _, h => Visits.isDone hm (.behind h hn)

theorem VisitsBranches.isDone : ∀ {scope : Scope} {others : List (Code × List Node)}
    {otherwise : List Node} {w₁ : World} {m : Moment},
    VisitsBranches reach scope others otherwise w₁ m → ∀ {rs : List Round} {p : Text.Position}
      {t : Code} {body ns : List Node} {w : World},
      At reach scope₀ ns₀ w₀ rs scope (.conditional p t body others otherwise :: ns) w →
      (test reach scope t).run (w.marked p.line) = .ok false w₁ → m.IsDone reach scope₀ ns₀ w₀
  | _, _, _, _, _, .otherwise hm, _, _, _, _, _, _, h, ht => Visits.isDone hm (.otherwise h ht)
  | _, _, _, _, _, .test, _, _, _, _, _, _, h, ht => .inr ⟨_, .test (.other h ht)⟩
  | _, _, _, _, _, .taken ht' hm, _, _, _, _, _, _, h, ht =>
    Visits.isDone hm (.taken (.other h ht) ht')
  | _, _, _, _, _, .others ht' hm, _, _, _, _, _, _, h, ht =>
    VisitsBranches.isDone hm (.other h ht) ht'

theorem VisitsPasses.isDone : ∀ {scope : Scope} {p : Text.Position} {target : Code}
    {body : List Node} {it : Value} {fuel : Nat} {passed : List Nat} {w₂ : World} {m : Moment},
    VisitsPasses reach scope p target body it fuel passed w₂ m → ∀ {rs : List Round}
      {keyword : LoopKeyword} {source : Code} {ns : List Node} {k : Nat} {w w₁ : World},
      At reach scope₀ ns₀ w₀ rs scope (.loop p keyword target source body :: ns) w →
      (started reach scope p target source body).run (w.marked p.line) = .ok it w₁ →
      Passes reach scope p target body it k w₁ w₂ → m.IsDone reach scope₀ ns₀ w₀
  | _, _, _, _, _, _, _, _, _, .endless, _, _, _, _, _, _, _, _, _, _ => .inl rfl
  | _, _, _, _, _, _, _, _, _, .item, _, _, _, _, _, _, _, h, hs, hp => .inr ⟨_, .item h hs hp⟩
  | _, _, _, _, _, _, _, _, _, .target hi, _, _, _, _, _, _, _, h, hs, hp =>
    .inr ⟨_, .target h hs hp hi⟩
  | _, _, _, _, _, _, _, _, _, .body hi ha hm, _, _, _, _, _, _, _, h, hs, hp =>
    Visits.isDone hm (.round h hs hp hi ha)
  | _, _, _, _, _, _, _, _, _, .next hi hp' hm, _, _, _, _, _, _, _, h, hs, hp =>
    VisitsPasses.isDone hm h hs (.more hp hi hp')

theorem VisitsTests.isDone : ∀ {scope : Scope} {p : Text.Position} {t : Code}
    {body : List Node} {fuel : Nat} {w' : World} {m : Moment},
    VisitsTests reach scope p t body fuel w' m → ∀ {rs : List Round} {ns : List Node} {w : World},
      At reach scope₀ ns₀ w₀ rs scope (.whileLoop p t body :: ns) w → w.marked p.line = w' →
      m.IsDone reach scope₀ ns₀ w₀
  | _, _, _, _, _, _, _, .endless, _, _, _, _, _ => .inl rfl
  | _, _, _, _, _, _, _, .test, _, _, _, h, hw => by
    cases hw
    exact .inr ⟨_, .again h⟩
  | _, _, _, _, _, _, _, .body ht hm, _, _, _, h, hw => Visits.isDone hm (.holds h (hw ▸ ht))
  | _, _, _, _, _, _, _, .next ht hp hm, _, _, _, h, hw =>
    VisitsTests.isDone hm (.again h (hw ▸ ht) hp) (whilePass_marked hp)

end

end Visited

end Render

end Stencil
