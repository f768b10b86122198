import Stencil.Proofs.Aloof
import Stencil.Proofs.LoopNesting
import Stencil.Proofs.SharedLists

/-!
# The progress of loops

As long as a loop is moved by nothing but its own iterator, it tells at every moment of a pass which
pass that is: in its body, in the bodies of loops inside, and whatever is evaluated meanwhile.
-/

namespace Stencil

open Render

variable {env : Environment}

/-- Templates are loaded without moving any loop. -/
def Environment.LeavesLoops (env : Environment) : Prop :=
  ∀ l : Licence, l.Allows False env → env.LoadsSafely l

theorem reserved_runsSafely (hloads : env.LeavesLoops) :
    RunsSafely False env Evaluator.reserved where
  evaluates _ := Evaluator.aloof_isSafe _ _
  own := Evaluator.aloof_takesOwn 999999
  loads hl := hloads _ hl

theorem reserved_coupled (env : Environment) :
    Render.Coupled (.refusing .outOfSteps nofun) env env.lenient (fun _ _ => True)
      Evaluator.reserved Evaluator.standard where
  mode := rfl
  paired := Evaluator.aloof_paired _
  standard := by
    have hlook : (Leeway.refusing .outOfSteps nofun).Meets Scope.lookup Scope.lookup :=
      refusing_meets (fun _ _ _ _ => .inl rfl) lookup_refusing
    have hpaired := Evaluator.runBy_paired hlook Evaluator.deepestStep
    rw [Evaluator.runBy_lookup] at hpaired
    exact hpaired
  covers := ⟨fun _ => ⟨false, fun _ _ _ _ _ _ => rfl⟩, fun _ _ _ => trivial, fun _ _ => trivial⟩

/-- A render that leaves loops alone is the render, unless it stops where it would not. -/
theorem renderBy_reserved (env : Environment) (t : Template) (data : Value) (more : Bindings)
    (w : World) :
    (t.renderBy Evaluator.reserved env data more).run w = (t.render env data more).run w ∨
      ∃ w', (t.renderBy Evaluator.reserved env data more).run w = .error .outOfSteps w' := by
  have halike : Alike (.refusing .outOfSteps nofun) Same w.heap.frames _ _ :=
    renderBy_alike (reserved_coupled env) (.told (t := t) rfl) (fun _ => trivial) data more
  rcases (halike w w (.of_refusing w) (.refl _)).eq_or_lost Leeway.refusing_isExact with
    heq | ⟨s, w', hrun, halt, b, hhalt, hs⟩
  · exact .inl heq
  · have hhalt : halt = .outOfSteps := hhalt
    subst hhalt
    rcases hs with rfl | ⟨b', rfl⟩
    · exact .inr ⟨w', hrun⟩
    · exact .inr ⟨w', hrun⟩

/-- However an evaluation ends, the loop is as it was. -/
structure Evaluator.Spares (ev : Evaluator) (h : Heap) (r : Ref) : Prop where
  ok : ∀ s e n v h', (ev.eval s e).run n h = .ok v h' → h'.loopState r = h.loopState r
  error : ∀ s e n halt h', (ev.eval s e).run n h = .error halt h' →
    h'.loopState r = h.loopState r

theorem reserved_spares {h : Heap} (hs : h.IsSound) {r : Ref} {s : LoopState}
    (hloop : h.cells[r]? = some (.loop s)) : Evaluator.reserved.Spares h r := by
  have hsame {h' : Heap} (hl : (Licence.strict h).Leads h h') :
      h'.loopState r = h.loopState r := by
    obtain ⟨i, hloop', hi⟩ := hl.loops hloop
    rw [Heap.loopState_of_cell hloop', Heap.loopState_of_cell hloop, hi id]
  have hsafe (scope : Scope) (e : Expr) (n : Nat) := (Evaluator.aloof_isSafe (.strict h)
    Evaluator.deepestStep).eval (s := scope) (e := e) hs (.refl _ _) n
  constructor
  · intro scope e n v h' hrun
    have hends := hsafe scope e n
    rw [show ((Evaluator.aloof Evaluator.deepestStep).eval scope e).run n h = _ from hrun] at hends
    cases hends with
    | ok hl _ _ => exact hsame hl
  · intro scope e n halt h' hrun
    have hends := hsafe scope e n
    rw [show ((Evaluator.aloof Evaluator.deepestStep).eval scope e).run n h = _ from hrun] at hends
    cases hends with
    | error hl _ _ => exact hsame hl

/-- What the loop of a round tells: which pass it is in, of how many items that its list had when it
was started, and which items are around the present one. -/
structure Round.Progress (ρ : Round) (w : World) (r : Ref) (xs : Array Value) : Prop where
  context : ρ.context = some r
  live : ∃ s, w.heap.cells[r]? = some (.loop s)
  counted : ρ.first.listItems (ρ.state r).items = xs
  tells : (w.heap.loopState r).TellsOf w.heap xs.size ρ.pass
    (w.heap.listItems (ρ.state r).items)
  /-- The item of the pass is the one that the list had at its place. -/
  item : ∃ k, ρ.pass = k + 1 ∧ (ρ.taken.listItems (ρ.state r).items)[k]? = some ρ.item
  /-- Nor does what is evaluated meanwhile change that. -/
  spared : Evaluator.reserved.Spares w.heap r

theorem Round.Stands.progress {f r : Ref} {outer : List Round} {ρ : Round} {w : World}
    (hs : w.heap.IsSound) (hρ : Round.Stands w.heap f False outer ρ r) :
    ρ.Progress w r (ρ.first.listItems (ρ.state r).items) := by
  obtain ⟨i, hloop, hi⟩ := hρ.runs.loop
  obtain ⟨k, hk, hitem⟩ := hρ.item
  have hstate := Heap.loopState_of_cell hloop
  refine ⟨hρ.context, ⟨_, hloop⟩, rfl, ?_, ⟨k, hk, hitem⟩, reserved_spares hs hloop⟩
  rw [hstate]
  exact LoopState.tells hρ.length (hi id) rfl (by omega)

/-- As long as no loop is moved by another iterator than its own, every loop whose body mentions
`loop` tells at every moment of its passes, whatever loops are inside, which pass that is. -/
theorem loop_tells_pass (hloads : env.LeavesLoops) {t : Template} (ht : t.IsRead) (data : Value)
    {more : Bindings} {w : World} (hs : w.heap.IsSound) (henv : Suits w.heap env)
    (hmore : Suits w.heap more) :
    ((t.renderBy Evaluator.reserved env data more).run w = (t.render env data more).run w ∨
      ∃ w', (t.renderBy Evaluator.reserved env data more).run w = .error .outOfSteps w') ∧
    ∀ (r : Ref) (w₀ : World), (Template.startData env data more).run w = .ok r w₀ →
      ∀ (hops : List Hop) (n : Nat) (e : Entry) (w₁ : World),
      Reaches env Evaluator.reserved (t.entry env r) w₀ hops (n + 1) e w₁ →
      ∀ (u : Template) (path : String) (ns : List Node), e.part.body? = some (u, path, ns) →
      ∀ (frame : Ref) (w₂ : World), ((e.reach env Evaluator.reserved n).evaluate
        (Eval.newFrame [])).run { w₁ with boundary := some e.boundary } = .ok frame w₂ →
      ∀ m, Visits (e.reach env Evaluator.reserved n) ⟨e.data, u.lenient, frame, [], [], path⟩ ns
        w₂ m → m.own = .endless ∨ ∃ rs,
        Does (e.reach env Evaluator.reserved n) ⟨e.data, u.lenient, frame, [], [], path⟩ ns w₂ rs
          m.own m.world ∧
        ∀ ρ ∈ rs, Node.mention "loop" ρ.body = true → ∃ r xs, ρ.Progress m.world r xs := by
  refine ⟨renderBy_reserved env t data more w, ?_⟩
  intro r w₀ hstart hops n e w₁ hreaches u path ns hp frame w₂ hf m hm
  obtain ⟨hs₀, henv₀, -⟩ := kept_of_safe
    (fun (_ : Licence.Allows _ False env) => startData_safe henv hmore) hs henv hstart
  have hruns := reserved_runsSafely hloads
  obtain ⟨hs₁, henv₁, hfrom⟩ := hreaches.kept hruns ht hs₀ henv₀
  refine (moment_surrounded hruns hfrom hs₁ henv₁ hp hf hm).imp_right ?_
  rintro ⟨rs, hdoes, hsurrounded⟩
  refine ⟨rs, hdoes, fun ρ hρ hmention => ?_⟩
  obtain ⟨inner, outer, hsplit⟩ := List.append_of_mem hρ
  cases hsurrounded.rounds.of_suffix ⟨inner, hsplit.symm⟩ with
  | cons _ hstands =>
    obtain ⟨q, hstands⟩ := hstands hmention
    exact ⟨q, _, hstands.progress hsurrounded.sound⟩

theorem bare_leavesLoops : Environment.bare.LeavesLoops := fun _ _ _ _ _ _ => .throw _

/-- Where all loops there are have come to their second pass, so has every round that tells its
progress. -/
theorem Round.Progress.pass_eq {ρ : Round} {w : World} {r : Ref} {xs : Array Value}
    (h : ρ.Progress w r xs) (hsecond : w.heap.inSecondPasses = true) : ρ.pass = 2 := by
  obtain ⟨s, hs⟩ := h.live
  have hindex : s.index = 1 :=
    of_decide_eq_true (Array.all_eq_true'.mp hsecond _ (Array.mem_of_getElem? hs))
  have htells := h.tells.index
  rw [Heap.loopState_of_cell hs] at htells
  simp only [LoopState.property?, hindex, Option.some.injEq, Except.ok.injEq,
    Value.int.injEq] at htells
  omega

/-- The inner body is come to in the second pass of both loops, which tell that this is so. -/
theorem nested_loops_progress :
    Environment.bare.LeavesLoops ∧ Template.nestedPage.IsRead ∧ World.fresh.heap.IsSound ∧
    Suits World.fresh.heap Environment.bare ∧
    ∃ (reach : Reach) (r frame : Ref) (w₁ : World) (m : Moment) (code : Code) (rs : List Round),
      Visits reach ⟨r, false, frame, [], [], "render"⟩ Node.nestedLoops w₁ m ∧
      m.own = .shown (.insideNested r frame) code ∧
      Does reach ⟨r, false, frame, [], [], "render"⟩ Node.nestedLoops w₁ rs m.own m.world ∧
      rs.map (fun ρ => (ρ.position, ρ.pass)) = [(⟨1, 17⟩, 2), (⟨1, 0⟩, 2)] ∧
      ∀ ρ ∈ rs, ∃ r xs, ρ.Progress m.world r xs := by
  have hloads := bare_leavesLoops
  have hread := Template.nestedPage_isRead
  have hs : World.fresh.heap.IsSound := Heap.empty_isSound
  have henv : Suits World.fresh.heap Environment.bare := Environment.bare_suits _
  have hmore : Suits World.fresh.heap ([("xs", .tuple [.int 1, .int 2])] : Bindings) := by simp
  obtain ⟨r, w₀, frame, w₁, m, code, hstart, hf, hm, hown, hsecond⟩ :=
    nestedPage_visits (.inr rfl)
  obtain ⟨-, htells⟩ := loop_tells_pass hloads hread .none hs henv hmore
  rcases htells r w₀ hstart [] _ _ w₀ .start _ _ _ rfl frame w₁ hf m hm with
    hendless | ⟨rs, hdoes, hprogress⟩
  · cases hown.symm.trans hendless
  have hshown := hdoes
  rw [hown] at hshown
  have hscopes : (Scope.insideNested r frame).loops = rs.map Round.scope :=
    hshown.shown_loops.trans (List.append_nil _)
  have hall (ρ : Round) (hρ : ρ ∈ rs) : ∃ r xs, ρ.Progress m.world r xs := by
    refine hprogress ρ hρ ?_
    have hcounted : ∀ l ∈ (Scope.insideNested r frame).loops, l.counted = true :=
      List.forall_mem_cons.mpr ⟨by decide, List.forall_mem_singleton.mpr (by decide)⟩
    have hmention := hcounted ρ.scope (hscopes ▸ List.mem_map_of_mem hρ)
    exact (Bool.and_eq_true_iff.mp hmention).1
  have hpasses : rs.map (fun ρ => (ρ.position, ρ.pass)) =
      (rs.map Round.scope).map fun l => (l.position, 2) := by
    rw [List.map_map]
    refine List.map_congr_left fun ρ hρ => ?_
    obtain ⟨q, xs, hq⟩ := hall ρ hρ
    exact congrArg (ρ.position, ·) (hq.pass_eq hsecond)
  rw [← hscopes] at hpasses
  exact ⟨hloads, hread, hs, henv, _, r, frame, w₁, m, code, rs, hm, hown, hdoes, hpasses, hall⟩

/-- An expression that goes through a loop leaves it in its last pass. -/
theorem listed_loop_moved :
    ((do
      let t ← Environment.bare.compile
        "@foreach(xs as x)@if([i for i in loop])@endif\x7b\x7b loop.index \x7d\x7d @endforeach" none
      t.render .bare .none [("xs", .tuple [.int 1, .int 2, .int 3])] : Action Output).value?
        .fresh).map Output.text = some "3 3 3 " := by
  decide +kernel

end Stencil
