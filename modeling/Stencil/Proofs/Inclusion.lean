import Stencil.Proofs.Layouts
import Stencil.Proofs.Nesting

/-!
# Inclusion

What an include emits is what the environment renders for the same name and data on its own:
neither data, variables, sections nor the chain of layouts of the including template take part.
An include may only meet a bound on nesting earlier.

One difference has to be bridged. The chain of an included template begins with its name, that
of a page only if the name is not empty. A template with the empty name that leads back to
itself is stopped one lap later as a page; that lap cannot end well either.
-/

namespace Stencil

open Boundary (Deeper Along)

namespace Boundary

/-- Nested at least as deep, in the chain `c` with the empty name before it. -/
structure Lagging (limit : Int) (c : List String) (b b' : Boundary) : Prop
    extends Deeper limit b b' where
  chain : b.chain = "" :: c
  chain' : b'.chain = c

variable {limit : Int} {c : List String} {b b' : Boundary}

theorem Lagging.atLine (h : Lagging limit c b b') (line : Int) :
    Lagging limit c (b.atLine line) (b'.atLine line) :=
  ⟨⟨h.nonneg, h.depth, h.limit_eq, h.limit_eq'⟩, h.chain, h.chain'⟩

theorem lagging_keepsLines : (Coupling.both (Lagging limit c)).KeepsLines := by
  rintro _ _ line ⟨b, b', rfl, rfl, h⟩
  exact ⟨_, _, rfl, rfl, h.atLine line⟩

end Boundary

namespace Render

open Boundary (Lagging)

variable {env : Environment} {ev : Evaluator} {B : Coupling} {limit : Int} {c : List String}

section EmptyName

variable {t₀ : Template} {position : Text.Position} {first : String} {own : List Section}
  (ht₀ : t₀.tree = .extension position first own) (hgives : env.Gives "" (.ok t₀))
include ht₀ hgives

/-- A page that comes back to the template with the empty name comes back to its layout next. -/
theorem second_lap_fails (ev : Evaluator) {b : Boundary} (hfirst : first = "" ∨ first ∈ b.chain)
    (hempty : "" ∉ b.chain) (m : Nat) (data : Ref) (sections : Sections) (w : World) :
    ∃ s notices, s.missing? = none ∧
      (extendFrom env b (env.host.calls m) (part env ev m) "" data sections).run w =
        .error s { w with notices } := by
  by_cases hd : b.depth < b.limit
  · obtain ⟨notices, hload⟩ : ∃ notices, ∀ again data sections,
        (extendFrom env b (env.host.calls m) again "" data sections).run w =
          (Action.within (b.child "" t₀.filename (some t₀.source.text) true)
            (again (.whole t₀) data sections)).run { w with notices } :=
      extendFrom_loaded env w hempty hd hgives
    rw [hload]
    cases m with
    | zero => exact ⟨_, notices, rfl, rfl⟩
    | succ m =>
      refine ⟨_, notices, ?_, hop_cycle env ev data _ _ ht₀ ?_⟩
      · rfl
      · rcases hfirst with rfl | hmem
        · exact List.mem_append_right _ List.mem_cons_self
        · exact List.mem_append_left _ hmem
  · exact ⟨_, w.notices, rfl, extendFrom_tooDeep env _ data sections w hempty (by omega)⟩

theorem extendFrom_lagging {m n : Nat} (hnm : n ≤ m)
    (ih : ∀ (c : List String) (t : Template) (data : Ref) (sections : Sections),
      (∀ x, t.tree.layout? = some x → x = first ∨ first ∈ c) →
      Parallel (.both (Lagging limit c)) (part env ev n (.whole t) data sections)
        (part env ev m (.whole t) data sections))
    {x : String} (hx : x = first ∨ first ∈ c) {b b' : Boundary} (hb : Lagging limit c b b')
    (data : Ref) (sections : Sections) :
    Parallel B (extendFrom env b (env.host.calls n) (part env ev n) x data sections)
      (extendFrom env b' (env.host.calls m) (part env ev m) x data sections) := by
  intro w w' h
  by_cases hc : x ∈ c
  · have hmem : x ∈ b.chain := hb.chain ▸ List.mem_cons_of_mem _ hc
    rw [extendFrom_cycle env _ data sections w hmem,
      extendFrom_cycle env _ data sections w' (hb.chain' ▸ hc)]
    exact .failed rfl h
  by_cases hempty : x = ""
  · subst hempty
    have hmem : "" ∈ b.chain := hb.chain ▸ List.mem_cons_self
    have hnew : "" ∉ b'.chain := by rwa [hb.chain']
    have hfirst : first = "" ∨ first ∈ b'.chain := by
      rw [hb.chain']
      exact hx.imp_left Eq.symm
    obtain ⟨s, notices, hs, hrun⟩ :=
      second_lap_fails ht₀ hgives ev hfirst hnew m data sections w'
    rw [extendFrom_cycle env _ data sections w hmem, hrun]
    exact .failed hs.symm ⟨h.heap, h.boundary⟩
  · have hcheck : b.checkCycle x = .ok () := by
      unfold Boundary.checkCycle
      rw [hb.chain, if_neg (by simp [hempty, hc])]
    have hcheck' : b'.checkCycle x = .ok () := by
      unfold Boundary.checkCycle
      rw [hb.chain', if_neg (by simpa using hc)]
    unfold extendFrom
    rw [hcheck, hcheck']
    refine Parallel.bind (Parallel.pure ()) (fun _ => ?_) w w' h
    refine Parallel.bind (Parallel.checkDepth hb.toDeeper x) fun _ => ?_
    refine Parallel.bind (Parallel.loadUnder (env.host.calls_le hnm) env x) fun t => ?_
    refine Parallel.within ⟨_, _, rfl, rfl, ⟨hb.toDeeper.child, congrArg (· ++ [x]) hb.chain,
      congrArg (· ++ [x]) hb.chain'⟩⟩ (ih (c ++ [x]) t data sections fun y _ => .inr ?_)
    rcases hx with rfl | hmem
    · exact List.mem_append_right _ List.mem_cons_self
    · exact List.mem_append_left _ hmem

theorem part_lagging (n : Nat) : ∀ m, n ≤ m → ∀ (c : List String) (t : Template) (data : Ref)
    (sections : Sections), (∀ x, t.tree.layout? = some x → x = first ∨ first ∈ c) →
    Parallel (.both (Lagging limit c)) (part env ev n (.whole t) data sections)
      (part env ev m (.whole t) data sections) := by
  induction n with
  | zero => exact fun _ _ _ _ _ _ _ _ _ _ => .limit rfl
  | succ n ih =>
    intro m hm c t data sections hx
    obtain ⟨m, rfl⟩ : ∃ k, m = k + 1 := ⟨m - 1, by omega⟩
    have hnm : n ≤ m := by omega
    cases ht : t.tree with
    | page ns =>
      exact page_parallel env ev (fun _ _ h => h.toDeeper) Boundary.lagging_keepsLines hm ht data
        sections
    | extension position layout own =>
      rw [part_extension env ev n ht, part_extension env ev m ht]
      refine Parallel.bind (Parallel.markLine Boundary.lagging_keepsLines _) fun _ => ?_
      refine Parallel.here fun b b' hb => ?_
      exact extendFrom_lagging ht₀ hgives hnm (ih m hnm) (hx layout (by rw [ht]; rfl)) hb data _

end EmptyName

theorem renderBy_dict (env : Environment) (ev : Evaluator) (name : String) (r : Ref) :
    env.renderBy ev name (.dict r) [] = (do
      let t ← env.loadUnder 0 name
      let entries := (← Action.heap).dictEntries r
      let data ← Action.evaluateUnder 0 (Eval.newData (dataWith env.baseData entries))
      Action.within (.page t.name t.filename (some t.source.text) env.limit)
        (part env ev env.host.room (.whole t) data [])) := rfl

/-- An include in the boundary `b`, which may go on to `n` more, and a render of its own. -/
theorem includeFrom_parallel (env : Environment) (ev : Evaluator) {n : Nat}
    (hn : n ≤ env.host.room) {name : String}
    (hname : name ≠ "" ∨ ∃ answer, env.Gives "" answer) (r : Ref) {b : Boundary}
    (hlimit : b.limit = env.limit) (hdepth : 0 ≤ b.depth) :
    Parallel B (includeFrom env b (env.host.calls n) (part env ev n) name r)
      (env.renderBy ev name (.dict r) []) := by
  rw [renderBy_dict]
  unfold includeFrom Boundary.checkDepth
  by_cases hd : b.depth ≥ b.limit
  · rw [if_pos hd]
    exact fun _ _ _ => .limit trivial
  rw [if_neg hd]
  refine Parallel.bind_of_run (Parallel.loadUnder (Nat.zero_le _) env name) fun t w w₁ hload => ?_
  obtain ⟨htname, -⟩ := Environment.loadUnder_ok hload
  refine Parallel.bind Parallel.heap fun h => ?_
  refine Parallel.bind (Parallel.evaluateUnder (Nat.zero_le _) _) fun data => ?_
  have hdeeper : Deeper env.limit (b.child name t.filename (some t.source.text) false)
      (.page t.name t.filename (some t.source.text) env.limit) :=
    ⟨Int.le_refl 0, Int.add_nonneg hdepth (by decide), hlimit, rfl⟩
  by_cases hempty : name = ""
  · subst hempty
    have hlagging : Lagging env.limit [] (b.child "" t.filename (some t.source.text) false)
        (.page t.name t.filename (some t.source.text) env.limit) :=
      ⟨hdeeper, rfl, by simp [Boundary.page, nonEmpty, htname]⟩
    obtain ⟨answer, hgives⟩ := hname.resolve_left fun h => h rfl
    have hanswer : answer = .ok t := ((hgives _).of_ok hload).1
    subst hanswer
    have hboth : Coupling.both (Lagging env.limit []) (some _) (some _) :=
      ⟨_, _, rfl, rfl, hlagging⟩
    refine Parallel.within hboth ?_
    cases ht : t.tree with
    | page ns =>
      exact page_parallel env ev (fun _ _ h => h.toDeeper) Boundary.lagging_keepsLines hn ht data []
    | extension position first own =>
      refine part_lagging ht hgives n _ hn [] t data [] fun x hx => ?_
      rw [ht] at hx
      exact .inl (Option.some.inj hx).symm
  · refine Parallel.within ⟨_, _, rfl, rfl, ⟨hdeeper, ?_⟩⟩
      ((part_parallel env ev env.limit n _ hn).2 t data [])
    simp [Boundary.child, Boundary.page, nonEmpty, htname, hempty]

end Render

namespace Action

variable {α : Type}

/-- Runs an action outside of any boundary and comes back to the present one. -/
def outside (x : Action α) : Action α := fun w =>
  match x.run { w with boundary := none } with
  | .ok a w' => .ok a { w' with boundary := w.boundary }
  | .error s w' => .error s { w' with boundary := w.boundary }

end Action

theorem Parallel.outside {α : Type} {x x' : Action α} (hx : ∀ B, Parallel B x x') {B : Coupling} :
    Parallel B x x'.outside := by
  intro w w' h
  have hr := hx (fun o _ => o = w.boundary) w { w' with boundary := none } ⟨h.heap, rfl⟩
  change Follows B (x.run w) (Action.outside x' w')
  unfold Action.outside
  generalize x.run w = r, x'.run { w' with boundary := none } = r' at hr
  cases hr with
  | done a h₁ => exact .done a ⟨h₁.heap, h₁.boundary ▸ h.boundary⟩
  | failed hs h₁ => exact .failed hs ⟨h₁.heap, h₁.boundary ▸ h.boundary⟩
  | limit hs => exact .limit hs

namespace Render

variable (env : Environment) (ev : Evaluator)

def alone (name : String) (v : Value) : Action Output :=
  match v with
  | .dict _ => Action.outside (env.renderBy ev name v [])
  | v => Action.fault (noMapping name v)

def aroundApart (calls : Nat) (again : Part → Ref → Sections → Action Output) (data : Ref)
    (sections : Sections) : Reach :=
  ⟨ev, calls, yieldTo again data sections, alone env ev⟩

/-- A part of a render in which every partial is a render of its own. -/
def partApart : Nat → Part → Ref → Sections → Action Output
  | 0, _, _, _ => Action.fault .tooRecursive
  | n + 1, .sectionBody s, data, sections =>
    body (aroundApart env ev (env.host.calls n) (partApart n) data sections) s.owner
      ("_section_" ++ toString s.index) data s.body
  | n + 1, .whole t, data, sections =>
    match t.tree with
    | .page ns =>
      body (aroundApart env ev (env.host.calls n) (partApart n) data sections) t "render" data ns
    | .extension position layout _ => do
      Action.markLine position.line
      extend env (env.host.calls n) (partApart n) layout data (sections.register t)

end Render

/-- Renders a template in which every partial is a render of its own. -/
def Template.renderApart (ev : Evaluator) (t : Template) (env : Environment) (data : Value)
    (more : Bindings) : Action Output := do
  let d ← renderData env data more
  let r ← Action.evaluate (Eval.newData d)
  Action.within (.page t.name t.filename (some t.source.text) env.limit)
    (Render.partApart env ev env.host.room (.whole t) r [])

namespace Render

variable {env : Environment} {ev : Evaluator} {R : Boundary → Boundary → Prop}

theorem includePartial_alone (hempty : ∃ answer, env.Gives "" answer)
    (hR : ∀ b b', R b b' → Deeper env.limit b b') {n : Nat} (hn : n ≤ env.host.room)
    (name : String) (v : Value) :
    Parallel (.both R) (includePartial env (env.host.calls n) (part env ev n) name v)
      (alone env ev name v) := by
  cases v with
  | dict r =>
    intro w w' h
    obtain ⟨b, b', hb, hb', hbb'⟩ := h.boundary
    have hdeeper := hR b b' hbb'
    change Follows _ ((Action.here >>= fun b =>
      includeFrom env b (env.host.calls n) (part env ev n) name r).run w) _
    rw [Action.run_here_bind hb]
    refine Parallel.outside (fun B => ?_) w w' h
    exact includeFrom_parallel env ev hn (.inr hempty) r hdeeper.limit_eq
      (Int.le_trans hdeeper.nonneg hdeeper.depth)
  | _ => exact Parallel.throw rfl

theorem part_apart (hempty : ∃ answer, env.Gives "" answer) (n : Nat) : n ≤ env.host.room →
    (∀ s data sections,
      Parallel (.both (Deeper env.limit)) (part env ev n (.sectionBody s) data sections)
        (partApart env ev n (.sectionBody s) data sections)) ∧
    ∀ t data sections, Parallel (.both (Along env.limit)) (part env ev n (.whole t) data sections)
      (partApart env ev n (.whole t) data sections) := by
  induction n with
  | zero =>
    intro _
    exact ⟨fun _ _ _ _ _ _ => .limit rfl, fun _ _ _ _ _ _ => .limit rfl⟩
  | succ n ih =>
    intro hn
    have hn' : n ≤ env.host.room := by omega
    obtain ⟨ihSection, ihWhole⟩ := ih hn'
    have haround : ∀ R : Boundary → Boundary → Prop, (∀ b b', R b b' → Deeper env.limit b b') →
        ∀ data sections, Alongside (.both R)
          (around env ev (env.host.calls n) (part env ev n) data sections)
          (aroundApart env ev (env.host.calls n) (partApart env ev n) data sections) :=
      fun R hR data sections => ⟨rfl, Nat.le_refl _,
        yieldTo_parallel hR data sections fun s => ihSection s data sections,
        includePartial_alone hempty hR hn'⟩
    constructor
    · intro s data sections
      exact Parallel.body Boundary.deeper_keepsLines (haround _ (fun _ _ h => h) data sections)
        _ _ _ _
    · intro t data sections
      unfold partApart
      cases ht : t.tree with
      | page ns =>
        rw [part_page env ev n ht]
        exact Parallel.body Boundary.along_keepsLines
          (haround _ (fun _ _ h => h.toDeeper) data sections) _ _ _ _
      | extension position layout own =>
        rw [part_extension env ev n ht]
        exact Parallel.bind (Parallel.markLine Boundary.along_keepsLines _) fun _ =>
          extend_parallel env (Nat.le_refl _) ihWhole layout data _

theorem renderData_parallel {B : Coupling} (env : Environment) (data : Value) (more : Bindings) :
    Parallel B (Template.renderData env data more) (Template.renderData env data more) := by
  unfold Template.renderData
  split
  · exact Parallel.pure _
  · exact Parallel.bind Parallel.heap fun _ => Parallel.pure _
  · exact Parallel.throw rfl

theorem renderBy_apart {B : Coupling} (hempty : ∃ answer, env.Gives "" answer) (t : Template)
    (data : Value) (more : Bindings) :
    Parallel B (t.renderBy ev env data more) (t.renderApart ev env data more) := by
  refine Parallel.bind (renderData_parallel env data more) fun d => ?_
  refine Parallel.bind (Parallel.evaluateUnder (Nat.le_refl _) _) fun r => ?_
  refine Parallel.within (R := .both (Along env.limit)) ?_
    ((part_apart hempty env.host.room (Nat.le_refl _)).2 t r [])
  exact ⟨_, _, rfl, rfl, ⟨⟨Int.le_refl 0, Int.le_refl 0, rfl, rfl⟩, rfl⟩⟩

end Render

abbrev Rendered := EStateM.Result Stop World Output

def Rendered.HitsLimit (r : Rendered) : Prop := ∃ s w, r = .error s w ∧ s.HitsLimit

def Rendered.output? : Rendered → Option Output
  | .ok out _ => some out
  | .error _ _ => none

theorem Rendered.HitsLimit.output? {r : Rendered} (h : r.HitsLimit) : r.output? = none := by
  obtain ⟨s, w, rfl, -⟩ := h
  rfl

/-- Both emit the same pieces and leave the same heap, or both fail. -/
inductive SameOutcome : Rendered → Rendered → Prop
  | done (out : Output) {w w' : World} (h : w.heap = w'.heap) :
      SameOutcome (.ok out w) (.ok out w')
  | failed (s s' : Stop) (w w' : World) : SameOutcome (.error s w) (.error s' w')

theorem Follows.same {B : Coupling} {r r' : Rendered} (h : Follows B r r') :
    r.HitsLimit ∨ SameOutcome r r' := by
  cases h with
  | done out h => exact .inr (.done out h.heap)
  | failed => exact .inr (.failed ..)
  | limit hs => exact .inl ⟨_, _, rfl, hs⟩

theorem SameOutcome.symm {r r' : Rendered} (h : SameOutcome r r') : SameOutcome r' r := by
  cases h with
  | done out h => exact .done out h.symm
  | failed => exact .failed ..

theorem SameOutcome.trans {r r' r'' : Rendered} (h : SameOutcome r r') (h' : SameOutcome r' r'') :
    SameOutcome r r'' := by
  cases h with
  | done out h =>
    cases h' with
    | done _ h' => exact .done out (h.trans h')
  | failed =>
    cases h' with
    | failed => exact .failed ..

/-- A point at which a partial is about to be included: a body that may go on to `room` more
boundaries, with data, sections and variables of its own, in a boundary as renders enter them.
The data of the partial evaluates to the dict `given`. -/
structure IncludePoint (env : Environment) (ev : Evaluator) (name : String) where
  room : Nat
  data : Ref
  sections : Sections
  scope : Scope
  position : Text.Position
  code : Code
  boundary : Boundary
  before : World
  after : World
  given : Ref
  room_le : room ≤ env.host.room
  inside : before.boundary = some boundary
  limit : boundary.limit = env.limit
  depth : 0 ≤ boundary.depth
  evaluates : (do
    Action.markLine position.line
    Render.evalCode (Render.around env ev (env.host.calls room) (Render.part env ev room) data
      sections) scope code).run before = .ok (.dict given) after

namespace IncludePoint

variable {env : Environment} {ev : Evaluator} {name : String} (p : IncludePoint env ev name)

def reach : Render.Reach :=
  Render.around env ev (env.host.calls p.room) (Render.part env ev p.room) p.data p.sections

/-- What the include comes to. -/
def emitted : Rendered :=
  (Render.node p.reach p.scope (.including p.position name (some p.code))).run p.before

/-- What the environment renders for the same name and data. -/
def own : Rendered :=
  (env.renderBy ev name (.dict p.given) []).run { p.after with boundary := none }

theorem after_boundary : p.after.boundary = some (p.boundary.atLine p.position.line) := by
  obtain ⟨_, w₁, hmark, heval⟩ := Action.bind_ok p.evaluates
  cases hmark
  rw [Action.evaluateUnder_ok heval]
  simp [p.inside]

theorem emitted_eq : p.emitted =
    (Render.includeFrom env (p.boundary.atLine p.position.line) (env.host.calls p.room)
      (Render.part env ev p.room) name p.given).run p.after := by
  have hnode : Render.node p.reach p.scope (.including p.position name (some p.code)) = ((do
      Action.markLine p.position.line
      Render.evalCode p.reach p.scope p.code) >>= p.reach.including name) := by
    unfold Render.node
    rw [bind_assoc]
  have heval : (do
      Action.markLine p.position.line
      Render.evalCode p.reach p.scope p.code).run p.before = .ok (.dict p.given) p.after :=
    p.evaluates
  unfold emitted
  rw [hnode, EStateM.run_bind, heval]
  exact Action.run_here_bind p.after_boundary _

/-- An include that meets no bound comes to what its name and data come to by themselves. -/
theorem same_as_own (hname : name ≠ "" ∨ ∃ answer, env.Gives "" answer) :
    p.emitted.HitsLimit ∨ SameOutcome p.emitted p.own := by
  rw [p.emitted_eq]
  have hparallel := Render.includeFrom_parallel (B := fun _ _ => True) env ev p.room_le hname
    p.given (b := p.boundary.atLine p.position.line) p.limit p.depth
  exact (hparallel p.after { p.after with boundary := none } ⟨rfl, trivial⟩).same

theorem own_follows (q : IncludePoint env ev name) (hname : ∃ answer, env.Gives name answer)
    (hheap : p.after.heap = q.after.heap)
    (hgiven : p.after.heap.dictEntries p.given = q.after.heap.dictEntries q.given) :
    Follows (fun _ _ => True) p.own q.own := by
  obtain ⟨answer, hgives⟩ := hname
  obtain ⟨notices, hload⟩ := hgives 0 { p.after with boundary := none }
  obtain ⟨notices', hload'⟩ := hgives 0 { q.after with boundary := none }
  unfold own
  rw [Render.renderBy_dict, Render.renderBy_dict, EStateM.run_bind, EStateM.run_bind, hload, hload']
  cases answer with
  | error f => exact .failed rfl ⟨hheap, trivial⟩
  | ok t =>
    let rest (entries : Array (Value × Value)) : Action Output := do
      let data ← Action.evaluateUnder 0 (Eval.newData (Render.dataWith env.baseData entries))
      Action.within (.page t.name t.filename (some t.source.text) env.limit)
        (Render.part env ev env.host.room (.whole t) data [])
    change Follows _
      ((rest (p.after.heap.dictEntries p.given)).run { p.after with boundary := none, notices })
      ((rest (q.after.heap.dictEntries q.given)).run
        { q.after with boundary := none, notices := notices' })
    rw [hgiven]
    refine Parallel.bind (Parallel.evaluateUnder (Nat.le_refl _) _) (fun data => ?_) _ _
      ⟨hheap, trivial⟩
    refine Parallel.within (R := .both (Along env.limit)) ?_
      ((Render.part_parallel env ev env.limit _ _ (Nat.le_refl _)).2 t data [])
    exact ⟨_, _, rfl, rfl, ⟨⟨Int.le_refl 0, Int.le_refl 0, rfl, rfl⟩, rfl⟩⟩

theorem own_same (q : IncludePoint env ev name) (hname : ∃ answer, env.Gives name answer)
    (hheap : p.after.heap = q.after.heap)
    (hgiven : p.after.heap.dictEntries p.given = q.after.heap.dictEntries q.given) :
    SameOutcome p.own q.own := by
  rcases (p.own_follows q hname hheap hgiven).same with ⟨s, w, hp, _⟩ | hsame
  · rcases (q.own_follows p hname hheap.symm hgiven.symm).same with ⟨s', w', hq, _⟩ | hsame
    · rw [hp, hq]
      exact .failed s s' w w'
    · exact hsame.symm
  · exact hsame

end IncludePoint

/-- Including a partial is rendering it on its own, unless a bound on nesting is met. At every
point an include comes to what its name and data come to by themselves; two points whose data
have the same entries include the same, though they differ in data, variables, sections, chain
and depth; and a render in which every partial is a render of its own is the same render. -/
theorem include_is_own_render (env : Environment) (ev : Evaluator) :
    (∀ name (p : IncludePoint env ev name), (name ≠ "" ∨ ∃ answer, env.Gives "" answer) →
      p.emitted.HitsLimit ∨ SameOutcome p.emitted p.own) ∧
    (∀ name (p q : IncludePoint env ev name), (∃ answer, env.Gives name answer) →
      p.after.heap = q.after.heap →
      p.after.heap.dictEntries p.given = q.after.heap.dictEntries q.given →
      p.emitted.HitsLimit ∨ q.emitted.HitsLimit ∨ SameOutcome p.emitted q.emitted) ∧
    ∀ (t : Template) (data : Value) (more : Bindings) (w : World),
      (∃ answer, env.Gives "" answer) →
      Rendered.HitsLimit ((t.renderBy ev env data more).run w) ∨
        SameOutcome ((t.renderBy ev env data more).run w)
          ((t.renderApart ev env data more).run w) := by
  refine ⟨fun name p hname => p.same_as_own hname, fun name p q hname hheap hgiven => ?_,
    fun t data more w hempty => ?_⟩
  · have hempty : name ≠ "" ∨ ∃ answer, env.Gives "" answer := by
      by_cases h : name = ""
      · exact .inr (h ▸ hname)
      · exact .inl h
    rcases p.same_as_own hempty with hp | hp
    · exact .inl hp
    rcases q.same_as_own hempty with hq | hq
    · exact .inr (.inl hq)
    exact .inr (.inr (hp.trans ((p.own_same q hname hheap hgiven).trans hq.symm)))
  · exact (Render.renderBy_apart (B := fun _ _ => True) hempty t data more w w ⟨rfl, trivial⟩).same

def greetings : Environment := .ofTable [("p", "Hi \x7b\x7b who \x7d\x7d")]

def greetingHeap : Heap where
  cells := #[.dict #[(.str "who", .str "Ann")], .dict #[(.str "who", .str "Ann")]]
  frames := #[[], []]
  data := #[⟨[("who", .str "Bob")], []⟩, ⟨[("card", .dict 0)], []⟩]

def homeBoundary : Boundary := .page (some "home") none none Boundary.usualLimit

def frameBoundary : Boundary :=
  (Boundary.page (some "team") none none Boundary.usualLimit).child "frame" none none true

/-- A page with data of its own is about to include the partial with a dict it writes out. -/
def writtenPoint : IncludePoint greetings Evaluator.standard "p" where
  room := 2
  data := 0
  sections := []
  scope := ⟨0, false, 0, [], [], "render"⟩
  position := .origin
  code := ⟨.origin, "\x7b'who': 'Ann'\x7d",
    .dict [(some (.literal (.text "who")), .literal (.text "Ann"))]⟩
  boundary := homeBoundary
  before := ⟨{ greetingHeap with cells := greetingHeap.cells.take 1 }, some homeBoundary, #[]⟩
  after := ⟨greetingHeap, some (homeBoundary.atLine 1), #[]⟩
  given := 1
  room_le := by decide
  inside := rfl
  limit := rfl
  depth := by decide
  evaluates := rfl

/-- The layout of another page, which has a section, is about to include the partial with a dict
from its data. -/
def passedPoint : IncludePoint greetings Evaluator.standard "p" where
  room := 1
  data := 1
  sections := [("s", ⟨⟨⟨"", some "team", none⟩, .page [], false⟩, 0, []⟩)]
  scope := ⟨1, true, 1, [], [], "render"⟩
  position := .origin
  code := ⟨.origin, "card", .name "card"⟩
  boundary := frameBoundary
  before := ⟨greetingHeap, some frameBoundary, #[]⟩
  after := ⟨greetingHeap, some (frameBoundary.atLine 1), #[]⟩
  given := 0
  room_le := by decide
  inside := rfl
  limit := rfl
  depth := by decide
  evaluates := rfl

/-- The included greeting is the greeting itself, from either page. -/
theorem greeting_included_is_own :
    ("p" ≠ "" ∨ ∃ answer, greetings.Gives "" answer) ∧ (∃ answer, greetings.Gives "p" answer) ∧
      (∃ answer, greetings.Gives "" answer) ∧
      writtenPoint.emitted.output? = some #[.literal "Hi ", .escaped "Ann"] ∧
      passedPoint.emitted.output? = some #[.literal "Hi ", .escaped "Ann"] ∧
      SameOutcome writtenPoint.emitted writtenPoint.own ∧
      SameOutcome writtenPoint.emitted passedPoint.emitted ∧
      ∀ (t : Template) (data : Value) (more : Bindings) (w : World),
        Rendered.HitsLimit ((t.renderBy Evaluator.standard greetings data more).run w) ∨
          SameOutcome ((t.renderBy Evaluator.standard greetings data more).run w)
            ((t.renderApart Evaluator.standard greetings data more).run w) := by
  obtain ⟨content, hc⟩ := Environment.ofTable_holds [("p", "Hi \x7b\x7b who \x7d\x7d")]
  have hp : ∃ answer, greetings.Gives "p" answer := ⟨_, hc.gives "p"⟩
  have hempty : ∃ answer, greetings.Gives "" answer := ⟨_, hc.gives ""⟩
  have hname : "p" ≠ "" ∨ ∃ answer, greetings.Gives "" answer := .inr hempty
  have hwritten : writtenPoint.emitted.output? = some #[.literal "Hi ", .escaped "Ann"] := by
    decide +kernel
  have hpassed : passedPoint.emitted.output? = some #[.literal "Hi ", .escaped "Ann"] := by
    decide +kernel
  have hlimit {r : Rendered} {out : Output} (hout : r.output? = some out) : ¬ r.HitsLimit := by
    intro h
    rw [h.output?] at hout
    cases hout
  obtain ⟨hown, htwo, happart⟩ := include_is_own_render greetings Evaluator.standard
  have htogether := ((htwo "p" writtenPoint passedPoint hp rfl rfl).resolve_left
    (hlimit hwritten)).resolve_left (hlimit hpassed)
  exact ⟨hname, hp, hempty, hwritten, hpassed,
    (hown "p" writtenPoint hname).resolve_left (hlimit hwritten), htogether,
    fun t data more w => happart t data more w hempty⟩

end Stencil
