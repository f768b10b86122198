import Stencil.Proofs.Placed
import Stencil.Proofs.Hops

/-!
# What surrounds what is done

At every moment of a render, whatever its boundary, the heap is sound, and the loops of the rounds
that the body is in are under way. Nothing else surrounds a moment: each boundary begins outside of
all loops.
-/

namespace Stencil

open Render

variable {free : Prop} {env : Environment}

namespace Render

def Own.scope? : Own → Option Scope
  | .shown scope _ | .test scope _ | .source scope _ _ _ _ | .target scope _ _ _ _
  | .inclusion scope _ _ => some scope
  | .item _ | .endless | .place _ _ => none

/-- What holds wherever something is done inside of rounds, in a body that began in `scope₀`. -/
structure Surrounded (free : Prop) (env : Environment) (scope₀ : Scope) (rs : List Round)
    (own : Own) (w : World) : Prop where
  sound : w.heap.IsSound
  env : Suits w.heap env
  frame : scope₀.frame < w.heap.frames.size
  scope : ∀ s, own.scope? = some s → s = { scope₀ with loops := rs.map Round.scope }
  apart : (rs.map (·.position)).Nodup
  nested : rs.Pairwise fun inner outer =>
    Node.expressionsOf inner.body ⊆ Node.expressionsOf outer.body
  rounds : Round.AllStand w.heap scope₀.frame free rs

variable {reach : Reach} {scope₀ scope : Scope} {ns₀ ns : List Node} {w₀ w : World}
  {rs : List Round} {own : Own}

theorem Placed.surrounded (h : Placed free env scope₀ rs scope ns w)
    (hscope : ∀ s, own.scope? = some s → s = scope) : Surrounded free env scope₀ rs own w where
  sound := h.sound
  env := h.env
  frame := h.frame
  scope s hs := (hscope s hs).trans h.scope
  apart := (List.nodup_append.mp h.apart).1
  nested := h.nested
  rounds := h.rounds

theorem Placed.surrounded_after {p : Text.Position} {keyword : LoopKeyword}
    {target source : Code} {body : List Node} {w' : World}
    (h : Placed free env scope₀ rs scope (.loop p keyword target source body :: ns) w)
    (hled : (Placed.loopLicence w.heap free scope.frame p body).Leads w.heap w'.heap)
    (hs : w'.heap.IsSound) (hscope : ∀ s, own.scope? = some s → s = scope) :
    Surrounded free env scope₀ rs own w' where
  sound := hs
  env := h.env.after hled
  frame := Nat.lt_of_lt_of_le h.frame hled.frames_le
  scope s hs := (hscope s hs).trans h.scope
  apart := (List.nodup_append.mp h.apart).1
  nested := h.nested
  rounds := Placed.rounds_around h hled

theorem Does.surrounded (hr : reach.IsSafe free env)
    (hstart : Placed free env scope₀ [] scope₀ ns₀ w₀)
    (h : Does reach scope₀ ns₀ w₀ rs own w) : Surrounded free env scope₀ rs own w := by
  have hsame {scope : Scope} : ∀ s, some scope = some s → s = scope := fun _ hs =>
    (Option.some.inj hs).symm
  cases h with
  | shown h => exact ((h.placed hr hstart).marked _).surrounded hsame
  | test h => exact ((h.placed hr hstart).marked _).surrounded hsame
  | again h => exact ((h.placed hr hstart).marked _).surrounded hsame
  | source h => exact ((h.placed hr hstart).marked _).surrounded hsame
  | place h => exact ((h.placed hr hstart).marked _).surrounded fun _ hs => nomatch hs
  | inclusion h => exact ((h.placed hr hstart).marked _).surrounded hsame
  | item h hs hp =>
    have hplaced := h.placed hr hstart
    obtain ⟨hled, hsound, -⟩ := Placed.passed hr hplaced hs hp
    exact hplaced.surrounded_after hled hsound fun _ hs => nomatch hs
  | target h hs hp hi =>
    have hplaced := h.placed hr hstart
    obtain ⟨hled, hsound, -⟩ := Placed.took hr hplaced hs hp hi
    exact hplaced.surrounded_after hled hsound hsame

section Entered

variable {ev : Evaluator} (hruns : RunsSafely free env ev) {n : Nat} {e e' : Entry}
  {t u : Template} {path : String} {frame : Ref} {w₁ w' : World} {hop : Hop} {hops : List Hop}

/-- What is safe keeps the heap sound and the environment where it is. -/
theorem kept_of_safe {α : Type} [Refers α] {x : Action α} {a : α}
    (hx : ∀ {l : Licence}, l.Allows free env → Action.IsSafe l w x) (hs : w.heap.IsSound)
    (henv : Suits w.heap env) (hrun : x.run w = .ok a w') :
    w'.heap.IsSound ∧ Suits w'.heap env ∧ Suits w'.heap a := by
  let l := Licence.within w.heap free w.heap.frames.size fun _ _ => False
  have hl : l.Allows free env := Licence.within_allows henv
  obtain ⟨hled, hs', ha⟩ := (hx hl).of_ok hs (.refl _ _) hrun
  exact ⟨hs', henv.after hled, ha⟩

include hruns

theorem reach_isSafe (n : Nat) (e : Entry) : (e.reach env ev n).IsSafe free env :=
  around_isSafe (part_safe hruns n) hruns _ _ _

omit hruns in
theorem body_placed (he : e.From Template.IsRead) (hs : w.heap.IsSound)
    (henv : Suits w.heap env) (hp : e.part.body? = some (u, path, ns))
    (hf : ((e.reach env ev n).evaluate (Eval.newFrame [])).run
      { w with boundary := some e.boundary } = .ok frame w₁) :
    Placed free env ⟨e.data, u.lenient, frame, [], [], path⟩ []
      ⟨e.data, u.lenient, frame, [], [], path⟩ ns w₁ := by
  obtain ⟨hread, hns⟩ := body_from he hp
  have hsafe {l : Licence} (_ : l.Allows free env) : Action.IsSafe l
      { w with boundary := some e.boundary } ((e.reach env ev n).evaluate (Eval.newFrame [])) :=
    .evaluateUnder _ (.newFrame fun hx => nomatch hx)
  obtain ⟨hs₁, henv₁, -⟩ := kept_of_safe hsafe hs henv hf
  refine ⟨hs₁, henv₁, ?_, rfl, ?_, nofun, .nil, .nil⟩
  · have hheap := evaluate_inv hf
    injection hheap with hframe hheap
    rw [← hheap, ← hframe]
    dsimp only
    rw [Array.size_push]
    exact Nat.lt_succ_self _
  · exact hread.loopPlaces_nodup hns

/-- So at every moment of a body it is surrounded by rounds of its own loops only. -/
theorem moment_surrounded (he : e.From Template.IsRead) (hs : w.heap.IsSound)
    (henv : Suits w.heap env) (hp : e.part.body? = some (u, path, ns))
    (hf : ((e.reach env ev n).evaluate (Eval.newFrame [])).run
      { w with boundary := some e.boundary } = .ok frame w₁) {m : Moment}
    (hm : Visits (e.reach env ev n) ⟨e.data, u.lenient, frame, [], [], path⟩ ns w₁ m) :
    m.own = .endless ∨ ∃ rs,
      Does (e.reach env ev n) ⟨e.data, u.lenient, frame, [], [], path⟩ ns w₁ rs m.own m.world ∧
      Surrounded free env ⟨e.data, u.lenient, frame, [], [], path⟩ rs m.own m.world := by
  refine (hm.isDone .start).imp_right fun ⟨rs, hdoes⟩ => ⟨rs, hdoes, ?_⟩
  exact hdoes.surrounded (reach_isSafe hruns n e) (body_placed he hs henv hp hf)

theorem givenData_safe {l : Licence} (hl : l.Allows free env) (scope : Scope)
    (given : Option Code) : Action.IsSafe l w (givenData (e.reach env ev n) scope given) := by
  cases given with
  | none => exact .evaluateUnder (env.host.calls n) (.newDict (suits_of_isEmpty rfl))
  | some code => exact evalCode_safe (reach_isSafe hruns n e) hl code

theorem enters_kept (he : e.From Template.IsRead) (hs : w.heap.IsSound) (henv : Suits w.heap env)
    (h : e.Enters env ev n w hop w₁ e' w') : w'.heap.IsSound ∧ Suits w'.heap env := by
  cases h with
  | @filled _ _ _ _ _ m name _ _ _ hp hf hm hown hentry =>
    obtain hendless | ⟨rs, -, hsurrounded⟩ := moment_surrounded hruns he hs henv hp hf hm
    · rw [hown] at hendless
      cases hendless
    · have hsafe {l : Licence} (_ : l.Allows free env) :
          Action.IsSafe l m.world (sectionEntry e.data e.sections name) := sectionEntry_safe _ _ _
      obtain ⟨hs', henv', -⟩ := kept_of_safe hsafe hsurrounded.sound hsurrounded.env hentry
      exact ⟨hs', henv'⟩
  | included hp hf hm hown hv hentry =>
    obtain hendless | ⟨rs, -, hsurrounded⟩ := moment_surrounded hruns he hs henv hp hf hm
    · rw [hown] at hendless
      cases hendless
    · obtain ⟨hs₂, henv₂, hfits⟩ := kept_of_safe (fun hl => givenData_safe hruns hl _ _)
        hsurrounded.sound hsurrounded.env hv
      obtain ⟨hs', henv', -⟩ := kept_of_safe (fun hl => partialEntry_safe hruns hl _ _ hfits)
        hs₂ henv₂ hentry
      exact ⟨hs', henv'⟩
  | @extended _ p _ _ _ _ _ _ hentry =>
    let w₂ := World.marked { w with boundary := some e.boundary } p.line
    obtain ⟨hs', henv', -⟩ := kept_of_safe (w := w₂)
      (fun hl => layoutEntry_safe hruns hl _ _ _ _) hs henv hentry
    exact ⟨hs', henv'⟩

theorem Reaches.kept (ht : t.IsRead) {r : Ref} (hs : w₀.heap.IsSound) (henv : Suits w₀.heap env)
    (h : Reaches env ev (t.entry env r) w₀ hops n e w) :
    w.heap.IsSound ∧ Suits w.heap env ∧ e.From Template.IsRead := by
  induction h with
  | start => exact ⟨hs, henv, ht, Sections.from_nil⟩
  | hop _ he ih =>
    obtain ⟨hs, henv, hfrom⟩ := ih
    obtain ⟨hs', henv'⟩ := enters_kept hruns hfrom hs henv he
    obtain ⟨a, ha, hrun⟩ := Entry.enters_iff_acts.mp ⟨_, _, he⟩
    exact ⟨hs', henv', (ha.leads hrun).from
      (fun _ _ _ _ _ hload => (Environment.loadUnder_ok hload).2) hfrom⟩

end Entered

theorem startData_safe {l : Licence} {env : Environment} {data : Value} {more : Bindings}
    {w : World} (henv : Suits w.heap env) (hmore : Suits w.heap more) :
    Action.IsSafe l w (Template.startData env data more) := by
  have hgiven {given : Action (Array (Value × Value))} (hgiven : Action.IsSafe l w given) :
      Action.IsSafe l w (do
        let g ← given
        let d := dataWith env.baseData g
        return ({ d with names := d.names.update more } : RenderData)) := by
    refine .bind hgiven fun hled hentries => ?_
    have hd := dataWith_suits (baseData_suits (henv.after hled)) hentries
    obtain ⟨hnames, hothers⟩ := suits_renderData.mp hd
    exact .pure (suits_renderData.mpr ⟨suits_update hnames (hmore.after hled), hothers⟩)
  have hd : Action.IsSafe l w (Template.renderData env data more) := by
    unfold Template.renderData
    split
    · exact hgiven (.pure suits_nil)
    · rename_i r
      have hentries : Action.IsSafe l w (do
          let heap ← Action.heap
          pure (heap.dictEntries r)) := .heap fun hs => .pure (hs.dictEntries r)
      exact hgiven hentries
    · exact hgiven (.fault _)
  exact .bind hd fun _ hd => .evaluateUnder 0 (.newData hd)

end Render

end Stencil
