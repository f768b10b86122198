import Stencil.Proofs.Mentions
import Stencil.Proofs.Sections
import Stencil.Proofs.TwinExpressions

/-!
# Twins of renders

Two renders run side by side in worlds whose heaps are twins, through the same templates but for
what these let pass. What a template may be rendered with is up to a predicate that layouts,
partials and sections keep to, so that every expression a render comes to is one of a template
that may be rendered with the data in hand.
-/

namespace Stencil

section Relations

variable (l : Leeway)

/-- Worlds that differ in their heaps at most, which are twins. -/
structure World.Twin (w w' : World) : Prop where
  heap : w.heap.Twin l w'.heap
  boundary : w'.boundary = w.boundary
  notices : w'.notices = w.notices

inductive Stop.Twin : Stop → Stop → Prop
  | same (s : Stop) : Stop.Twin s s
  | offered (ho : l.offers) (name : String) (guess guess' : Option String)
      (failure : RenderFailure) :
      Stop.Twin (.failed (.template (.undefined name guess failure)))
        (.failed (.template (.undefined name guess' failure)))

/-- A render was stopped by a halt at which the first run may be given up. -/
def Stop.Lost (data : Array RenderData) (s : Stop) : Prop :=
  ∃ halt b, l.lost data halt ∧
    (s = Action.stopOf b halt ∨ ∃ b', s = Action.reported b' (Action.stopOf b halt))

inductive Template.Twin (t : Template) : Template → Prop
  | told {mode : Bool} (h : l.modes t.lenient mode) : Template.Twin t { t with lenient := mode }

variable {α β : Type}

/-- Two outcomes of actions that differ no more than allowed. -/
inductive Met (V : Array Frame → α → β → Prop) (frames : Array Frame) :
    EStateM.Result Stop World α → EStateM.Result Stop World β → Prop
  | ok {a : α} {b : β} {w w' : World} (hw : w.Twin l w') (hg : Grows frames w.heap.frames)
      (hv : V w.heap.frames a b) : Met V frames (.ok a w) (.ok b w')
  | error {s s' : Stop} {w w' : World} (hw : w.Twin l w') (hg : Grows frames w.heap.frames)
      (hs : s.Twin l s') : Met V frames (.error s w) (.error s' w')
  | lost {s : Stop} {w : World} {r : EStateM.Result Stop World β} (hl : s.Lost l w.heap.data) :
      Met V frames (.error s w) r

/-- Wherever frames have grown from `frames`, the two actions end alike. -/
def Alike (V : Array Frame → α → β → Prop) (frames : Array Frame) (x : Action α)
    (y : Action β) : Prop :=
  ∀ w w', w.Twin l w' → Grows frames w.heap.frames →
    Met l V w.heap.frames (x.run w) (y.run w')

end Relations

variable {l : Leeway}

theorem Halt.Twin.stopOf {halt halt' : Halt} (hh : halt.Twin l halt') (b : Option Boundary) :
    (Action.stopOf b halt).Twin l (Action.stopOf b halt') := by
  cases hh with
  | same halt => exact .same _
  | offered ho name available available' =>
    cases b with
    | none => exact .offered ho name _ _ _
    | some b => exact .offered ho name _ _ _

theorem Stop.Twin.reported {s s' : Stop} (hs : s.Twin l s') (b : Boundary) :
    (Action.reported b s).Twin l (Action.reported b s') := by
  cases hs with
  | same s => exact .same _
  | offered ho name guess guess' failure => exact .offered ho name guess guess' failure

theorem Stop.Twin.missing? {s s' : Stop} (hs : s.Twin l s') : s.missing? = s'.missing? := by
  cases hs with
  | same s => rfl
  | offered ho name guess guess' failure => rfl

namespace Stop.Lost

variable {data : Array RenderData} {s : Stop}

/-- What is lost can be told, so the innermost boundary reports it. -/
theorem reported (hs : s.Lost l data) (b : Boundary) : ∃ halt b₀, l.lost data halt ∧
    ∃ b', Action.reported b s = Action.reported b' (Action.stopOf b₀ halt) := by
  obtain ⟨halt, b₀, hl, rfl | ⟨b', rfl⟩⟩ := hs
  · exact ⟨halt, b₀, hl, b, rfl⟩
  · refine ⟨halt, b₀, hl, b', ?_⟩
    cases halt with
    | fault f =>
      change Action.reported b (Action.reported b' (.failed (.fault f))) =
        Action.reported b' (.failed (.fault f))
      rw [Action.reported_told b' (l.lost_told hl)]
      rfl
    | undefinedName name available => rfl
    | outOfSteps => rfl

theorem of_reported (hs : s.Lost l data) (b : Boundary) : (Action.reported b s).Lost l data := by
  obtain ⟨halt, b₀, hl, hreported⟩ := hs.reported b
  exact ⟨halt, b₀, hl, .inr hreported⟩

theorem missing?_eq (hs : s.Lost l data) : s.missing? = none := by
  obtain ⟨halt, b, hl, rfl | ⟨b', rfl⟩⟩ := hs
  · cases halt <;> cases b <;> rfl
  · rw [missing?_reported]
    cases halt <;> cases b <;> rfl

end Stop.Lost

theorem Met.after {α β : Type} {V : Array Frame → α → β → Prop} {frames frames' : Array Frame}
    {r : EStateM.Result Stop World α} {r' : EStateM.Result Stop World β}
    (h : Met l V frames' r r') (hg : Grows frames frames') : Met l V frames r r' := by
  cases h with
  | ok hw hg' hv => exact .ok hw (hg.trans hg') hv
  | error hw hg' hs => exact .error hw (hg.trans hg') hs
  | lost hl => exact .lost hl

namespace Alike

variable {α β γ δ : Type} {V : Array Frame → α → β → Prop} {W : Array Frame → γ → δ → Prop}
  {frames : Array Frame} {x : Action α} {y : Action β}

theorem imp {V' : Array Frame → α → β → Prop} (h : Alike l V frames x y)
    (hv : ∀ frames' a b, Grows frames frames' → V frames' a b → V' frames' a b) :
    Alike l V' frames x y := by
  intro w w' hw hg
  have hr := h w w' hw hg
  generalize x.run w = r, y.run w' = r' at hr ⊢
  cases hr with
  | ok hw' hg' h => exact .ok hw' hg' (hv _ _ _ (hg.trans hg') h)
  | error hw' hg' hs => exact .error hw' hg' hs
  | lost hl => exact .lost hl

theorem ran (h : Alike l V frames x y) :
    Alike l (fun frames' a b => V frames' a b ∧ ∃ w w₁, x.run w = .ok a w₁) frames x y := by
  intro w w' hw hg
  have hr := h w w' hw hg
  generalize hrun : x.run w = r, y.run w' = r' at hr ⊢
  cases hr with
  | ok hw' hg' h => exact .ok hw' hg' ⟨h, w, _, hrun⟩
  | error hw' hg' hs => exact .error hw' hg' hs
  | lost hl => exact .lost hl

theorem deliver {a : α} {b : β} (hv : ∀ frames', Grows frames frames' → V frames' a b) :
    Alike l V frames (pure a) (pure b) :=
  fun w _ hw hg => .ok hw (.refl _) (hv w.heap.frames hg)

theorem pure (a : α) : Alike l Same frames (Pure.pure a) (Pure.pure a) := deliver fun _ _ => rfl

theorem throw {s s' : Stop} (hs : s.Twin l s') :
    Alike l V frames (MonadExcept.throw s : Action α) (MonadExcept.throw s') :=
  fun _ _ hw _ => .error hw (.refl _) hs

theorem bindWith {f : α → Action γ} {g : β → Action δ} (hx : Alike l V frames x y)
    (hf : ∀ frames' a b, Grows frames frames' → V frames' a b → Alike l W frames' (f a) (g b)) :
    Alike l W frames (x >>= f) (y >>= g) := by
  intro w w' hw hg
  have hr := hx w w' hw hg
  rw [EStateM.run_bind, EStateM.run_bind]
  generalize x.run w = r, y.run w' = r' at hr ⊢
  cases hr with
  | ok hw₁ hg₁ hv => exact (hf _ _ _ (hg.trans hg₁) hv _ _ hw₁ (.refl _)).after hg₁
  | error hw₁ hg₁ hs => exact .error hw₁ hg₁ hs
  | lost hl => exact .lost hl

theorem bind {x y : Action α} {f : α → Action γ} {g : α → Action δ} (hx : Alike l Same frames x y)
    (hf : ∀ frames' a, Grows frames frames' → Alike l W frames' (f a) (g a)) :
    Alike l W frames (x >>= f) (y >>= g) := by
  refine bindWith hx fun frames' a b hg hab => ?_
  cases hab
  exact hf frames' a hg

theorem bindSuch {P : Array Frame → α → Prop} {x y : Action α} {f : α → Action γ}
    {g : α → Action δ} (hx : Alike l (Such P) frames x y)
    (hf : ∀ frames' a, Grows frames frames' → P frames' a → Alike l W frames' (f a) (g a)) :
    Alike l W frames (x >>= f) (y >>= g) := by
  refine bindWith hx fun frames' a b hg hab => ?_
  obtain ⟨rfl, ha⟩ := hab
  exact hf frames' a hg ha

theorem heap {f : Heap → Action γ} {g : Heap → Action δ}
    (hg : ∀ h h', h.LooksLike h' → g h = g h') (hf : ∀ h, Alike l W frames (f h) (g h)) :
    Alike l W frames (Action.heap >>= f) (Action.heap >>= g) := by
  intro w w' hw hgrows
  have hr := hf w.heap w w' hw hgrows
  rw [hg _ _ hw.heap.looksLike] at hr
  exact hr

theorem ofExcept (e : Except Fault α) :
    Alike l Same frames (Action.ofExcept e) (Action.ofExcept e) := by
  cases e with
  | ok a => exact pure a
  | error f => exact throw (.same _)

theorem orReject (e : Except TemplateError α) :
    Alike l Same frames (Action.orReject e) (Action.orReject e) := by
  cases e with
  | ok a => exact pure a
  | error f => exact throw (.same _)

theorem notice (n : Notice) : Alike l Same frames (Action.notice n) (Action.notice n) :=
  fun _ _ hw _ => .ok ⟨hw.heap, hw.boundary, congrArg (·.push n) hw.notices⟩ (.refl _) rfl

theorem forM {ε : Type} {f : ε → Action PUnit}
    (hf : ∀ frames' e, Alike l Same frames' (f e) (f e)) (es : List ε) :
    Alike l Same frames (es.forM f) (es.forM f) := by
  induction es generalizing frames with
  | nil => exact pure PUnit.unit
  | cons e es ih => exact bind (hf frames e) fun _ _ _ => ih

theorem markLine (line : Nat) :
    Alike l Same frames (Action.markLine line) (Action.markLine line) :=
  fun _ _ hw _ => .ok ⟨hw.heap, congrArg (Option.map _) hw.boundary, hw.notices⟩ (.refl _) rfl

theorem evaluateUnder (calls : Nat) {e : Eval α} {e' : Eval β} (he : Twin l V frames e e') :
    Alike l V frames (Action.evaluateUnder calls e) (Action.evaluateUnder calls e') := by
  intro w w' hw hg
  have hr := he calls w.heap w'.heap hw.heap hg
  change Met l V w.heap.frames (Action.evaluateUnder calls e w) (Action.evaluateUnder calls e' w')
  unfold Action.evaluateUnder
  generalize e.run calls w.heap = r, e'.run calls w'.heap = r' at hr ⊢
  cases hr with
  | ok ht hg' hv => exact .ok ⟨ht, hw.boundary, hw.notices⟩ hg' hv
  | error ht hg' hh =>
    refine .error ⟨ht, hw.boundary, hw.notices⟩ hg' ?_
    rw [hw.boundary]
    exact hh.stopOf w.boundary
  | lost hl => exact .lost ⟨_, w.boundary, hl, .inl rfl⟩

theorem within (b : Boundary) (hx : Alike l V frames x y) :
    Alike l V frames (Action.within b x) (Action.within b y) := by
  intro w w' hw hg
  have hr := hx { w with boundary := some b } { w' with boundary := some b }
    ⟨hw.heap, rfl, hw.notices⟩ hg
  change Met l V w.heap.frames (Action.within b x w) (Action.within b y w')
  unfold Action.within
  generalize x.run { w with boundary := some b } = r, y.run { w' with boundary := some b } = r'
    at hr ⊢
  cases hr with
  | ok hw' hg' hv => exact .ok ⟨hw'.heap, hw.boundary, hw'.notices⟩ hg' hv
  | error hw' hg' hs =>
    refine .error ⟨hw'.heap, hw.boundary, hw'.notices⟩ hg' ?_
    rw [hw'.boundary]
    exact hs.reported _
  | lost hl => exact .lost (hl.of_reported _)

theorem run_here (w : World) : Action.here.run w = match w.boundary with
    | some b => .ok b w
    | none => .error (.failed (.fault Action.notRendering)) w := by
  simp only [Action.here, EStateM.run_bind, EStateM.run_get]
  cases w.boundary with
  | none => rfl
  | some b => rfl

theorem here : Alike l Same frames Action.here Action.here := by
  intro w w' hw hg
  rw [run_here, run_here, hw.boundary]
  cases w.boundary with
  | none => exact .error hw (.refl _) (.same _)
  | some b => exact .ok hw (.refl _) rfl

/-- Actions tried with handlers that only take up a template that was not found. -/
theorem tryCatch {x y : Action α} {f g : Stop → Action α} (hx : Alike l Same frames x y)
    (hmiss : ∀ frames' m n, Alike l Same frames' (f (.failed (.template (.notFound m n))))
      (g (.failed (.template (.notFound m n)))))
    (hf : ∀ s : Stop, s.missing? = none → f s = MonadExcept.throw s)
    (hg : ∀ s : Stop, s.missing? = none → g s = MonadExcept.throw s) :
    Alike l Same frames (MonadExcept.tryCatch x f) (MonadExcept.tryCatch y g) := by
  intro w w' hw hgrows
  have hr : Met l Same w.heap.frames (x w) (y w') := hx w w' hw hgrows
  change Met l Same w.heap.frames (EStateM.tryCatch x f w) (EStateM.tryCatch y g w')
  unfold EStateM.tryCatch
  generalize x w = r, y w' = r' at hr
  cases hr with
  | ok hw' hg' hv => exact .ok hw' hg' hv
  | @error s s' w₁ w₁' hw' hg' hs =>
    cases hm : s.missing? with
    | none =>
      have hm' : s'.missing? = none := hs.missing? ▸ hm
      simp only [hf s hm, hg s' hm']
      exact .error hw' hg' hs
    | some m =>
      have hm' : s'.missing? = some m := hs.missing? ▸ hm
      rw [Stop.eq_of_missing? hm, Stop.eq_of_missing? hm']
      exact (hmiss _ m.1 m.2 w₁ w₁' hw' (.refl _)).after hg'
  | @lost s w₁ r hl =>
    simp only [hf s hl.missing?_eq]
    exact .lost hl

section Loading

variable {ev ev' : Evaluator}

theorem ofFailure (e : Except Failure α) :
    Alike l Same frames (Loader.ofFailure e) (Loader.ofFailure e) := by
  cases e with
  | ok a => exact pure a
  | error f => exact throw (.same _)

theorem compile (s : Source) {mode mode' : Bool} (hmode : l.modes mode mode') :
    Alike l (fun _ t t' => t.Twin l t') frames (Template.compile s mode)
      (Template.compile s mode') := by
  unfold Template.compile
  cases s.tree with
  | error f => exact throw (.same _)
  | ok read =>
    refine bind (forM (fun _ _ => notice _) _) fun _ _ _ => ?_
    cases Template.checkFault? s read.1 with
    | some f => exact throw (.same _)
    | none => exact bind (notice _) fun _ _ _ => deliver fun _ _ => .told hmode

theorem compileSource (env : Environment) {mode' : Bool} (hmode : l.modes env.lenient mode')
    (s : Source) : Alike l (fun _ t t' => t.Twin l t') frames (env.compileSource s)
      (({ env with lenient := mode' } : Environment).compileSource s) := by
  unfold Environment.compileSource
  cases env.host.breakdown? s with
  | some b => exact throw (.same _)
  | none => exact compile s hmode

theorem compileLoaded (env : Environment) {mode' : Bool} (hmode : l.modes env.lenient mode')
    (name : String) (loaded : Loaded) :
    Alike l (fun _ t t' => t.Twin l t') frames (env.compileLoaded name loaded)
      (({ env with lenient := mode' } : Environment).compileLoaded name loaded) := by
  unfold Environment.compileLoaded
  split
  · exact compileSource env hmode _
  · refine heap (fun h h' l => ?_) fun h => ?_
    · rw [l.truth]
    · split
      · exact bindWith (compileSource env hmode _) fun _ _ _ _ _ => throw (.same _)
      · exact compileSource env hmode _

theorem fromObject (hev : ev.Paired l ev') (v : Value) (name : String) :
    Twin l Same frames (Loader.fromObject ev v name) (Loader.fromObject ev' v name) := by
  unfold Loader.fromObject
  refine .get (fun h h' l => ?_) fun h => ?_
  · rw [l.ownAttribute]
  · refine .bind (.ofExcept _) fun _ f _ => .bind (hev.call f _ _) fun _ answer _ => ?_
    refine .bindSuch (Evaluator.unpackExactly_twin hev answer 2) fun _ parts _ _ => ?_
    split
    · exact .pure _
    · exact .fault _

mutual

theorem find (hev : ev.Paired l ev') (calls : Nat) (tree : FileTree) (name : String) :
    ∀ (loader : Loader) {frames : Array Frame}, Alike l Same frames (loader.find ev calls tree name)
      (loader.find ev' calls tree name)
  | .files loader, _ => ofFailure _
  | .table templates, _ => by
    unfold Loader.find
    cases templates.lookup name with
    | none => exact throw (.same _)
    | some source => exact pure _
  | .choice loaders, _ => findFirst hev calls tree name _ [] loaders
  | .lookup views, _ => ofFailure _
  | .callback f, _ =>
    bind (evaluateUnder calls (hev.call f _ _)) fun _ answer _ => ofFailure _
  | .shouting, _ => pure _
  | .custom v, _ => evaluateUnder calls (fromObject hev v name)

theorem findFirst (hev : ev.Paired l ev') (calls : Nat) (tree : FileTree) (name : String)
    (count : Nat) : ∀ (misses : List String) (ls : List Loader) {frames : Array Frame},
      Alike l Same frames (Loader.findFirst ev calls tree name count misses ls)
        (Loader.findFirst ev' calls tree name count misses ls)
  | _, [], _ => throw (.same _)
  | misses, loader :: ls, _ => by
    refine tryCatch (find hev calls tree name loader)
      (fun _ m n => findFirst hev calls tree name count _ ls) ?_ ?_
    · intro s hs
      split
      · cases hs
      · rfl
    · intro s hs
      split
      · cases hs
      · rfl

end

/-- Templates are loaded by the same evaluator, whoever evaluates their expressions. -/
theorem loadUnder (hstandard : Evaluator.standard.Paired l Evaluator.standard)
    (env : Environment) {mode' : Bool} (hmode : l.modes env.lenient mode') (calls : Nat)
    (name : String) : Alike l (fun _ t t' => t.Twin l t') frames (env.loadUnder calls name)
      (({ env with lenient := mode' } : Environment).loadUnder calls name) := by
  unfold Environment.loadUnder
  dsimp only
  cases env.loader with
  | none => exact throw (.same _)
  | some loader =>
    exact bind (find hstandard calls _ name loader) fun _ loaded _ =>
      compileLoaded env hmode name loaded

end Loading

end Alike

structure Node.Fits (l : Leeway) (tracked : Bool) (frames : Array Frame) (s : Scope)
    (ns : List Node) : Prop where
  own : s.locals = []
  admits : ∀ loops whole, Node.Holds s.loops ns loops whole → ∀ context e,
    Expr.Holds [] whole context e → l.allows tracked s.data s.frame loops context e
  /-- Where the runs are told different things of the loops around, nothing asks for them. -/
  quiet : l.tally.apart s.frame → Node.mention "loop" ns = false
  ready : tracked = true → s.Ready frames
  framed : l.framed → s.frame < frames.size

structure Reach.Twin (l : Leeway) (reach reach' : Render.Reach) : Prop where
  ev : reach.ev.Paired l reach'.ev
  calls : reach'.calls = reach.calls
  yielding : ∀ {frames} name fallback,
    Alike l Same frames (reach.yielding name fallback) (reach'.yielding name fallback)
  including : ∀ {frames} name v,
    Alike l Same frames (reach.including name v) (reach'.including name v)

namespace Node.Fits

variable {tracked : Bool} {frames : Array Frame} {s : Scope} {ns ms : List Node}

theorem mono {frames' : Array Frame} (h : Node.Fits l tracked frames s ns)
    (hg : Grows frames frames') : Node.Fits l tracked frames' s ns :=
  ⟨h.own, h.admits, h.quiet, fun ht => (h.ready ht).mono hg,
    fun hf => Nat.lt_of_lt_of_le (h.framed hf) hg.size⟩

theorem expr (h : Node.Fits l tracked frames s ns) {e : Expr}
    (he : Node.Holds s.loops ns s.loops e) : l.Fits tracked frames s e :=
  ⟨fun context f hf => h.admits _ _ he context f (by rwa [Scope.context, h.own] at hf), h.ready,
    h.framed⟩

theorem inside (h : Node.Fits l tracked frames s ns)
    (hms : ∀ loops e, Node.Holds s.loops ms loops e → Node.Holds s.loops ns loops e)
    (hcodes : Node.expressionsOf ms ⊆ Node.expressionsOf ns) : Node.Fits l tracked frames s ms :=
  ⟨h.own, fun loops whole hw => h.admits loops whole (hms loops whole hw),
    fun ha => Bool.eq_false_iff.mpr fun hm =>
      Bool.eq_false_iff.mp (h.quiet ha) (Node.mention_of_subset hcodes hm), h.ready, h.framed⟩

theorem pass_quiet {p : Text.Position} {k : LoopKeyword} {target source : Code} {body : List Node}
    (h : Node.Fits l tracked frames s [.loop p k target source body])
    (ha : l.tally.apart s.frame) : Node.mention "loop" body = false := by
  refine Bool.eq_false_iff.mpr fun hm => Bool.eq_false_iff.mp (h.quiet ha) ?_
  refine Node.mention_of_subset (fun code hcode => ?_) hm
  exact List.mem_append_left _ (List.mem_cons_of_mem _ (List.mem_cons_of_mem _ hcode))

end Node.Fits

namespace Render

variable {reach reach' : Reach} {tracked : Bool} {frames : Array Frame}

section Constructs

variable (hr : Reach.Twin l reach reach') {s s' : Scope} {α β : Type}

include hr

theorem evaluate_alike {V : Array Frame → α → β → Prop} {e : Eval α} {e' : Eval β}
    (he : Twin l V frames e e') : Alike l V frames (reach.evaluate e) (reach'.evaluate e') := by
  unfold Reach.evaluate
  rw [hr.calls]
  exact .evaluateUnder reach.calls he

theorem evalCode_alike (hs : s.Twin l s') (code : Code) (hf : l.Fits tracked frames s code.expr) :
    Alike l Same frames (evalCode reach s code) (evalCode reach' s' code) :=
  evaluate_alike hr (hr.ev.eval hs hf)

theorem test_alike (hs : s.Twin l s') (code : Code) (hf : l.Fits tracked frames s code.expr) :
    Alike l Same frames (test reach s code) (test reach' s' code) := by
  refine .bind (evalCode_alike hr hs code hf) fun _ v _ => ?_
  refine .heap (fun h h' l => ?_) fun h => .pure _
  rw [l.truth]

omit hr in
theorem textOf_alike (v : Value) : Alike l Same frames (textOf v) (textOf v) := by
  refine .heap (fun h h' l => ?_) fun h => .ofExcept _
  rw [l.outputText]

omit hr in
theorem parentLoop_twin (hs : s.Twin l s') (hframe : ¬ l.tally.apart s.frame) :
    Twin l Same frames (parentLoop s) (parentLoop s') := by
  obtain @⟨mode, loops, hmode, hloops⟩ := hs
  cases l.tally.together hframe hloops
  unfold parentLoop
  dsimp only
  split
  · exact .pure _
  · refine .frame fun b b' hb => ?_
    rw [hb _ (l.tally.shared_of _ hframe)]
    split
    · exact .pure _
    · exact .pure _

omit hr in
theorem materializedBy_twin {ev ev' : Evaluator} (hev : ev.Paired l ev') (v : Value) :
    Twin l Same frames (materializedBy ev v) (materializedBy ev' v) := by
  unfold materializedBy
  split
  · exact .pure _
  · exact .bind (ev.collect_twin hev v) fun _ items _ =>
      (Plain.allocate (c := .list items) trivial).twin

omit hr in
/-- A loop that counts its passes has a value before its first. -/
theorem startLoop_twin {ev ev' : Evaluator} (hev : ev.Paired l ev') (hs : s.Twin l s')
    (loop : LoopScope) (counts : Bool) (hcounts : loop.counted = true → counts = true)
    (hframe : counts = true → ¬ l.tally.apart s.frame) (v : Value) :
    Twin l (Such fun frames' _ => s.frame < frames.size → loop.counted = true →
        Assigned frames' s.frame (.ofLoop loop.position "loop")) frames
      (startLoop ev s loop counts v) (startLoop ev' s' loop counts v) := by
  obtain @⟨mode, loops, hmode, hloops⟩ := hs
  unfold startLoop
  dsimp only
  split
  · rename_i hcount
    refine .bind (materializedBy_twin hev v) fun frames₁ items hg₁ => ?_
    refine .bind (parentLoop_twin (.told hmode hloops) (hframe hcount)) fun frames₂ parent hg₂ => ?_
    refine .bind (Eval.newLoop_plain items parent).twin fun frames₃ r hg₃ => ?_
    split
    · refine .bindSuch (.bindVariable s.frame _ _) fun frames₄ _ hg₄ hbound => ?_
      refine (toIterator_plain _).twin.imp fun frames₅ _ _ hg₅ h => ⟨h, fun hlt _ => ?_⟩
      refine hg₅.assigned _ _ (hbound ?_)
      exact Nat.lt_of_lt_of_le hlt ((hg₁.trans hg₂).trans hg₃).size
    · rename_i hcounted
      exact (toIterator_plain _).twin.imp fun _ _ _ _ h => ⟨h, fun _ h => absurd h hcounted⟩
  · rename_i hnot
    exact (toIterator_plain _).twin.imp fun _ _ _ _ h => ⟨h, fun _ h => absurd (hcounts h) hnot⟩

theorem eachItem_alike (it : Value) {f f' : Value → Action Output}
    (hf : ∀ frames', Grows frames frames' → ∀ v, Alike l Same frames' (f v) (f' v)) (fuel : Nat)
    (out : Output) :
    Alike l Same frames (eachItem reach it f fuel out) (eachItem reach' it f' fuel out) := by
  induction fuel generalizing out frames with
  | zero => exact .throw (.same _)
  | succ fuel ih =>
    unfold eachItem
    refine .bind (evaluate_alike hr (hr.ev.next it)) fun _ next hg => ?_
    cases next with
    | none => exact .pure out
    | some v =>
      refine .bind (hf _ hg v) fun _ more hg' => ?_
      exact ih (fun _ hg'' v => hf _ ((hg.trans hg').trans hg'') v) _

omit hr in
theorem whileTrue_alike {again again' : Action Bool} {x x' : Action Output}
    (ha : ∀ frames', Grows frames frames' → Alike l Same frames' again again')
    (hx : ∀ frames', Grows frames frames' → Alike l Same frames' x x') (fuel : Nat)
    (out : Output) :
    Alike l Same frames (whileTrue again x fuel out) (whileTrue again' x' fuel out) := by
  induction fuel generalizing out frames with
  | zero => exact .throw (.same _)
  | succ fuel ih =>
    unfold whileTrue
    refine .bind (ha _ (.refl _)) fun _ go hg => ?_
    cases go with
    | false => exact .pure out
    | true =>
      refine .bind (hx _ hg) fun _ more hg' => ih (fun _ hg'' => ?_) (fun _ hg'' => ?_) _
      · exact ha _ ((hg.trans hg').trans hg'')
      · exact hx _ ((hg.trans hg').trans hg'')

theorem started_alike (hs : s.Twin l s') {p : Text.Position} {k : LoopKeyword}
    {target source : Code} {body : List Node}
    (hf : Node.Fits l tracked frames s [.loop p k target source body]) :
    Alike l (Such fun frames' _ => s.frame < frames.size →
      (loopScope p target body).counted = true →
        Assigned frames' s.frame (.ofLoop p "loop")) frames
      (started reach s p target source body) (started reach' s' p target source body) := by
  have hsource := hf.expr (.source List.mem_cons_self)
  refine .bind (evalCode_alike hr hs source hsource) fun _ v hg => ?_
  have hcounts : (loopScope p target body).counted = true → Node.mention "loop" body = true :=
    fun h => (Bool.and_eq_true_iff.mp h).1
  have hframe : Node.mention "loop" body = true → ¬ l.tally.apart s.frame := fun hmention ha =>
    Bool.false_ne_true ((hf.pass_quiet ha).symm.trans hmention)
  refine (evaluate_alike hr (startLoop_twin hr.ev hs (loopScope p target body) _ hcounts hframe
    (sourceValue v))).imp fun _ _ _ _ h => ⟨h.1, fun hlt => h.2 ?_⟩
  exact Nat.lt_of_lt_of_le hlt hg.size

theorem assigned_alike (hs : s.Twin l s') {p : Text.Position} {k : LoopKeyword}
    {target source : Code} {body : List Node}
    (hf : Node.Fits l tracked frames s [.loop p k target source body]) (v : Value) :
    Alike l (Such fun frames' _ => s.frame < frames.size →
      ∀ id ∈ target.expr.storedNames, Assigned frames' s.frame (.ofLoop p id)) frames
      (assigned reach s p target body v) (assigned reach' s' p target body v) := by
  obtain @⟨mode, loops, hmode, hloops⟩ := hs
  refine evaluate_alike hr ?_
  exact Evaluator.assign_twin hr.ev (.told hmode hloops) s.frame (.ofLoop p) target.expr v frames
    fun e he => hf.expr (.target List.mem_cons_self he)

omit hr in
theorem innerFits {p : Text.Position} {k : LoopKeyword} {target source : Code} {body : List Node}
    (hf : Node.Fits l tracked frames s [.loop p k target source body])
    (hcounted : tracked = true → (loopScope p target body).counted = true →
      Assigned frames s.frame (.ofLoop p "loop"))
    (htargets : tracked = true → ∀ id ∈ target.expr.storedNames,
      Assigned frames s.frame (.ofLoop p id)) :
    Node.Fits l tracked frames (innerScope s p target body) body where
  own := hf.own
  admits loops whole hw := hf.admits loops whole (.pass List.mem_cons_self hw)
  quiet ha := hf.pass_quiet ha
  framed := hf.framed
  ready ht := by
    have hready := hf.ready ht
    refine ⟨hready.frame, fun loop hloop id hid => ?_, hready.locals⟩
    rcases List.mem_cons.mp hloop with rfl | hloop
    · rcases hid with hid | ⟨hcount, rfl⟩
      · exact htargets ht id (List.contains_iff_mem.mp hid)
      · exact hcounted ht hcount
    · exact hready.loops loop hloop id hid

end Constructs

mutual

theorem node_alike (hr : Reach.Twin l reach reach') : ∀ (n : Node) {s s' : Scope}
    {frames : Array Frame}, s.Twin l s' → Node.Fits l tracked frames s [n] →
      Alike l Same frames (node reach s n) (node reach' s' n)
  | .data _ text, _, _, _, _, _ => .pure _
  | .output p code escaped, _, _, _, hs, hf => by
    unfold node
    refine .bind (.markLine _) fun _ _ hg => ?_
    refine .bind (evalCode_alike hr hs code ((hf.expr (.shown List.mem_cons_self)).mono hg))
      fun _ v _ => ?_
    exact .bind (textOf_alike v) fun _ text _ => .pure _
  | .yielding p name fallback, _, _, _, _, _ => by
    unfold node
    exact .bind (.markLine _) fun _ _ _ => hr.yielding name fallback
  | .including p name none, _, _, _, _, _ => by
    unfold node
    refine .bind (.markLine _) fun _ _ _ => ?_
    exact .bind (evaluate_alike hr (Plain.newDict #[]).twin) fun _ v _ => hr.including name v
  | .including p name (some code), _, _, _, hs, hf => by
    unfold node
    refine .bind (.markLine _) fun _ _ hg => ?_
    exact .bind (evalCode_alike hr hs code ((hf.expr (.given List.mem_cons_self)).mono hg))
      fun _ v _ => hr.including name v
  | .conditional p t body others otherwise, _, _, _, hs, hf => by
    unfold node
    refine .bind (.markLine _) fun _ _ hg => ?_
    refine .bind (test_alike hr hs t ((hf.expr (.test List.mem_cons_self)).mono hg))
      fun _ holds hg' => ?_
    have hf' := hf.mono (hg.trans hg')
    split
    · exact nodes_alike hr body #[] hs (hf'.inside (fun _ _ h => .taken List.mem_cons_self h)
        fun _ hc => List.mem_append_left _ (List.mem_cons_of_mem _
          (List.mem_append_left _ (List.mem_append_left _ hc))))
    · refine branches_alike hr others hs (fun b hb => ⟨?_, ?_⟩) (fun frames₁ hg₁ => ?_)
      · exact hf'.expr (.otherTest List.mem_cons_self hb)
      · exact hf'.inside (fun _ _ h => .otherTaken List.mem_cons_self hb h)
          fun _ hc => List.mem_append_left _ (List.mem_cons_of_mem _ (List.mem_append_left _
            (List.mem_append_right _
              (Node.expressionsOfOther_subset hb (Node.mem_expressionsOfOther hc)))))
      · exact nodes_alike hr otherwise #[] hs ((hf'.mono hg₁).inside
          (fun _ _ h => .otherwise List.mem_cons_self h) fun _ hc =>
            List.mem_append_left _ (List.mem_cons_of_mem _ (List.mem_append_right _ hc)))
  | .loop p k target source body, s, s', _, hs, hf => by
    rw [node_loop, node_loop]
    refine .bind (.markLine _) fun _ _ hg => ?_
    have hf₀ := hf.mono hg
    refine .bindSuch (started_alike hr hs hf₀) fun _ it hg₁ hstarted => ?_
    refine eachItem_alike hr it (fun _ hg₂ v => ?_) _ _
    have hf₂ := hf₀.mono (hg₁.trans hg₂)
    refine .bindSuch (assigned_alike hr hs hf₂ v) fun _ _ hg₃ hassigned => ?_
    have hs' : (innerScope s p target body).Twin l (innerScope s' p target body) := by
      cases hs with
      | told hmode hloops => exact .told hmode (l.tally.cons _ hloops)
    refine nodes_alike hr body #[] hs' (innerFits (hf₂.mono hg₃) (fun ht hcount => ?_) fun ht => ?_)
    · exact (hg₂.trans hg₃).assigned _ _ (hstarted (hf₀.ready ht).frame hcount)
    · exact hassigned (hf₂.ready ht).frame
  | .whileLoop p t body, _, _, _, hs, hf => by
    rw [node_while, node_while]
    refine .bind (.markLine _) fun _ _ hg => ?_
    refine whileTrue_alike (fun _ hg' => ?_) (fun _ hg' => ?_) _ _
    · exact test_alike hr hs t ((hf.expr (.again List.mem_cons_self)).mono (hg.trans hg'))
    · have hbody := (hf.mono (hg.trans hg')).inside
        (fun _ _ h => .whilePass List.mem_cons_self h) fun _ hc =>
          List.mem_append_left _ (List.mem_cons_of_mem _ hc)
      refine .bind (nodes_alike hr body #[] hs hbody) fun _ out _ => ?_
      exact .bind (.markLine _) fun _ _ _ => .pure out

theorem nodes_alike (hr : Reach.Twin l reach reach') : ∀ (ns : List Node) (out : Output)
    {s s' : Scope} {frames : Array Frame}, s.Twin l s' → Node.Fits l tracked frames s ns →
      Alike l Same frames (nodes reach s out ns) (nodes reach' s' out ns)
  | [], out, _, _, _, _, _ => .pure out
  | n :: ns, out, _, _, _, hs, hf => by
    have hfirst := hf.inside (fun _ _ h => h.mono fun m hm => by
      rw [List.mem_singleton.mp hm]
      exact List.mem_cons_self) fun _ hc => by
        rw [Node.expressionsOf, Node.expressionsOf, List.append_nil] at hc
        exact List.mem_append_left _ hc
    have hrest := hf.inside (fun _ _ h => h.mono fun m hm => List.mem_cons_of_mem n hm)
      fun _ hc => List.mem_append_right _ hc
    refine .bind (node_alike hr n hs hfirst) fun _ more hg => ?_
    exact nodes_alike hr ns _ hs (hrest.mono hg)

theorem branches_alike (hr : Reach.Twin l reach reach') : ∀ (others : List (Code × List Node))
    {s s' : Scope} {frames : Array Frame} {x x' : Action Output}, s.Twin l s' →
      (∀ b ∈ others, l.Fits tracked frames s b.1.expr ∧ Node.Fits l tracked frames s b.2) →
      (∀ frames', Grows frames frames' → Alike l Same frames' x x') →
      Alike l Same frames (branches reach s x others) (branches reach' s' x' others)
  | [], _, _, _, _, _, _, _, hx => hx _ (.refl _)
  | b :: others, _, _, _, _, _, hs, hf, hx => by
    unfold branches
    refine .bind (branch_alike hr b hs (hf b List.mem_cons_self)) fun _ taken hg => ?_
    cases taken with
    | some out => exact .pure out
    | none =>
      refine branches_alike hr others hs (fun b hb => ?_) fun _ hg' => hx _ (hg.trans hg')
      have hb := hf b (List.mem_cons_of_mem _ hb)
      exact ⟨hb.1.mono hg, hb.2.mono hg⟩

theorem branch_alike (hr : Reach.Twin l reach reach') : ∀ (b : Code × List Node) {s s' : Scope}
    {frames : Array Frame}, s.Twin l s' →
      l.Fits tracked frames s b.1.expr ∧ Node.Fits l tracked frames s b.2 →
      Alike l Same frames (branch reach s b) (branch reach' s' b)
  | (t, body), _, _, _, hs, hf => by
    unfold branch
    refine .bind (.markLine _) fun _ _ hg => ?_
    refine .bind (test_alike hr hs t (hf.1.mono hg)) fun _ holds hg' => ?_
    split
    · exact .bind (nodes_alike hr body #[] hs (hf.2.mono (hg.trans hg'))) fun _ out _ => .pure _
    · exact .pure none

end

end Render

/-- Which templates a render may come to, and with which data. -/
structure Leeway.Covers (l : Leeway) (env : Environment) (may : Ref → Template → Prop) : Prop where
  allowed : ∀ {r t}, may r t → ∃ tracked, ∀ frame, ¬ l.tally.held frame →
    ∀ loops context e, t.Holds loops context e → l.allows tracked r frame loops context e
  layout : ∀ {r t name calls w u w'}, may r t → t.tree.layout? = some name →
    (env.loadUnder calls name).run w = .ok u w' → may r u
  inclusion : ∀ {d d' name calls w u w'}, l.data d d' →
    (env.loadUnder calls name).run w = .ok u w' → may d.size u

/-- A section of a template that may be rendered, and the same one but for what its template lets
pass. -/
inductive BoundSection.Twin (l : Leeway) (may : Ref → Template → Prop) (r : Ref)
    (s : BoundSection) : BoundSection → Prop
  | told {mode : Bool} (hbody : s.body ∈ s.owner.tree.bodies) (hmay : may r s.owner)
      (hmode : l.modes s.owner.lenient mode) :
      BoundSection.Twin l may r s { s with owner := { s.owner with lenient := mode } }

def Sections.Twin (l : Leeway) (may : Ref → Template → Prop) (r : Ref) (s s' : Sections) : Prop :=
  ∀ name, Option.Rel (BoundSection.Twin l may r) (s.lookup name) (s'.lookup name)

namespace Sections

variable {may : Ref → Template → Prop} {r : Ref}

theorem Twin.nil : Sections.Twin l may r [] [] := fun _ => .none

/-- The sections of a template that may be rendered join their twins. -/
theorem Twin.register {s s' : Sections} (hs : s.Twin l may r s') {t : Template} {mode : Bool}
    (hmode : l.modes t.lenient mode) (hmay : may r t) :
    (s.register t).Twin l may r (s'.register { t with lenient := mode }) := by
  intro name
  unfold Sections.register
  rw [lookup_foldl_put, lookup_foldl_put]
  have hold := hs name
  generalize s.lookup name = o, s'.lookup name = o' at hold
  cases hold with
  | some h => exact .some h
  | none =>
    rw [Option.none_or, Option.none_or]
    dsimp only
    cases hfound : t.tree.sections.zipIdx.find? (·.1.name = name) with
    | none => exact .none
    | some x =>
      have hmem := List.mem_of_find?_eq_some hfound
      have hbody : x.1.body ∈ t.tree.bodies := by
        cases htree : t.tree with
        | page ns =>
          rw [htree] at hmem
          cases hmem
        | extension position layout sections =>
          rw [htree] at hmem
          exact List.mem_map.mpr ⟨x.1, List.fst_mem_of_mem_zipIdx hmem, rfl⟩
      exact .some (.told hbody hmay hmode)

end Sections

namespace Render

variable {env : Environment} {mode' : Bool} {may : Ref → Template → Prop} {ev ev' : Evaluator}
  {frames : Array Frame}

/-- Parts of a render end alike with their data and sections, wherever they are entered. -/
structure PartsAlike (l : Leeway) (may : Ref → Template → Prop)
    (again again' : Part → Ref → Sections → Action Output) : Prop where
  whole : ∀ {frames r sections sections' t t'}, sections.Twin l may r sections' → t.Twin l t' →
    may r t → Alike l Same frames (again (.whole t) r sections) (again' (.whole t') r sections')
  sectionBody : ∀ {frames r sections sections' s s'}, sections.Twin l may r sections' →
    s.Twin l may r s' →
    Alike l Same frames (again (.sectionBody s) r sections) (again' (.sectionBody s') r sections')

/-- What two runs of a render of some templates keep to. -/
structure Coupled (l : Leeway) (env : Environment) (mode' : Bool)
    (may : Ref → Template → Prop) (ev ev' : Evaluator) : Prop where
  mode : l.modes env.lenient mode'
  paired : ev.Paired l ev'
  standard : Evaluator.standard.Paired l Evaluator.standard
  covers : l.Covers env may

section Entered

variable {again again' : Part → Ref → Sections → Action Output}
  (hagain : PartsAlike l may again again') (hc : Coupled l env mode' may ev ev')

include hagain

theorem yieldTo_alike {r : Ref} {sections sections' : Sections}
    (hs : sections.Twin l may r sections') (name fallback : String) :
    Alike l Same frames (yieldTo again r sections name fallback)
      (yieldTo again' r sections' name fallback) := by
  unfold yieldTo
  have hname := hs name
  generalize sections.lookup name = o, sections'.lookup name = o' at hname
  cases hname with
  | none => exact .pure _
  | @some b b' hb =>
    refine .bind .here fun _ here _ => ?_
    have hbody {frames : Array Frame} : Alike l Same frames _ _ := hagain.sectionBody hs hb
    cases hb with
    | told hmem hmay hmode => exact .within _ hbody

include hc

theorem includeFrom_alike (here : Boundary) (calls : Nat) (name : String) (r : Ref) :
    Alike l Same frames (includeFrom env here calls again name r)
      (includeFrom { env with lenient := mode' } here calls again' name r) := by
  refine .bind (.orReject _) fun _ _ _ => ?_
  refine .bindWith (Alike.loadUnder hc.standard env hc.mode calls name).ran
    fun _ t t' _ ht => ?_
  obtain ⟨htwin, w, w₁, hrun⟩ := ht
  refine .heap (fun h h' l => ?_) fun h => ?_
  · rw [l.dictEntries]
  · refine .bindSuch (.evaluateUnder calls (.newData _)) fun _ data _ hdata => ?_
    obtain ⟨d, d', hd, rfl⟩ := hdata
    have hpart {frames : Array Frame} : Alike l Same frames _ _ :=
      hagain.whole .nil htwin (hc.covers.inclusion hd hrun)
    cases htwin with
    | told hmode => exact .within _ hpart

theorem includePartial_alike (calls : Nat) (name : String) (v : Value) :
    Alike l Same frames (includePartial env calls again name v)
      (includePartial { env with lenient := mode' } calls again' name v) := by
  unfold includePartial
  split
  · exact .bind .here fun _ here _ => includeFrom_alike hagain hc here calls name _
  · exact .throw (.same _)

theorem extend_alike {t : Template} {name : String} {r : Ref}
    (hlayout : t.tree.layout? = some name) (hmay : may r t) (calls : Nat)
    {sections sections' : Sections} (hs : sections.Twin l may r sections') :
    Alike l Same frames (extend env calls again name r sections)
      (extend { env with lenient := mode' } calls again' name r sections') := by
  refine .bind .here fun _ here _ => ?_
  refine .bind (.orReject _) fun _ _ _ => .bind (.orReject _) fun _ _ _ => ?_
  refine .bindWith (Alike.loadUnder hc.standard env hc.mode calls name).ran
    fun _ u u' _ hu => ?_
  obtain ⟨htwin, w, w₁, hrun⟩ := hu
  have hpart {frames : Array Frame} : Alike l Same frames _ _ :=
    hagain.whole hs htwin (hc.covers.layout hmay hlayout hrun)
  cases htwin with
  | told hmode => exact .within _ hpart

omit hagain hc in
theorem body_alike (hcovers : l.Covers env may) {reach reach' : Reach}
    (hr : Reach.Twin l reach reach') {t : Template} (hmode : l.modes t.lenient mode') {r : Ref}
    (hmay : may r t) {ns : List Node} (hns : ns ∈ t.tree.bodies) (path : String) :
    Alike l Same frames (body reach t path r ns)
      (body reach' { t with lenient := mode' } path r ns) := by
  obtain ⟨tracked, hallowed⟩ := hcovers.allowed hmay
  refine .bindSuch (evaluate_alike hr (.newFrame [])) fun _ frame _ hframe => ?_
  obtain ⟨⟨hlt, hframe⟩, -⟩ := hframe
  refine nodes_alike hr ns #[] (.told hmode (l.tally.refl _ _)) (?_ : Node.Fits l tracked _ _ ns)
  exact ⟨rfl, fun loops whole hw context e he =>
    hallowed frame hframe loops context e ⟨ns, hns, whole, hw, he⟩,
    fun ha => absurd (l.tally.apart_held ha) hframe, fun _ => ⟨hlt, nofun, nofun⟩, fun _ => hlt⟩

end Entered

/-- With twins of templates and sections, parts of a render end alike. -/
theorem part_alike (hc : Coupled l env mode' may ev ev') (n : Nat) :
    PartsAlike l may (part env ev n) (part { env with lenient := mode' } ev' n) := by
  induction n with
  | zero => exact ⟨fun _ _ _ => .throw (.same _), fun _ _ => .throw (.same _)⟩
  | succ n ih =>
    have hreach {r : Ref} {sections sections' : Sections}
        (hs : sections.Twin l may r sections') : Reach.Twin l
          (around env ev (env.host.calls n) (part env ev n) r sections)
          (around { env with lenient := mode' } ev' (env.host.calls n)
            (part { env with lenient := mode' } ev' n) r sections') :=
      ⟨hc.paired, rfl, fun name fallback => yieldTo_alike ih hs name fallback,
        fun name v => includePartial_alike ih hc _ name v⟩
    refine ⟨fun {frames r sections sections' t t'} hs ht hmay => ?_, fun hs hb => ?_⟩
    · obtain @⟨mode, hmode⟩ := ht
      have hcases : (∃ ns, t.tree = .page ns) ∨
          ∃ position layout own, t.tree = .extension position layout own := by
        cases t.tree with
        | page ns => exact .inl ⟨ns, rfl⟩
        | extension position layout own => exact .inr ⟨position, layout, own, rfl⟩
      rcases hcases with ⟨ns, htree⟩ | ⟨position, layout, own, htree⟩
      · have hns : ns ∈ t.tree.bodies := htree ▸ List.mem_singleton_self ns
        rw [part_page env ev n htree, part_page _ ev' n (t := { t with lenient := mode }) htree]
        exact body_alike hc.covers (hreach hs) hmode hmay hns _
      · have hlayout : t.tree.layout? = some layout := htree ▸ rfl
        rw [part_extension env ev n htree,
          part_extension _ ev' n (t := { t with lenient := mode }) htree]
        refine .bind (.markLine _) fun _ _ _ => ?_
        exact extend_alike ih hc hlayout hmay _ (hs.register hmode hmay)
    · cases hb with
      | told hbody hmay hmode => exact body_alike hc.covers (hreach hs) hmode hmay hbody _

/-- With the same data, a template and its twin render alike. -/
theorem renderBy_alike (hc : Coupled l env mode' may ev ev') {t t' : Template}
    (ht : t.Twin l t') (hmay : ∀ {d d'}, l.data d d' → may d.size t) (data : Value)
    (more : Bindings) : Alike l Same frames (t.renderBy ev env data more)
      (t'.renderBy ev' { env with lenient := mode' } data more) := by
  have hdata : Alike l Same frames (Template.renderData env data more)
      (Template.renderData { env with lenient := mode' } data more) := by
    unfold Template.renderData
    split
    · exact .bind (.pure #[]) fun _ given _ => .pure _
    · refine .heap (fun h h' l => ?_) fun h => .bind (.pure _) fun _ given _ => .pure _
      rw [l.dictEntries]
    · exact .bindWith (V := fun _ _ _ => False) (.throw (.same _)) fun _ _ _ _ h => h.elim
  refine .bind hdata fun _ d _ => .bindSuch (.evaluateUnder 0 (.newData d)) fun _ r _ hr => ?_
  obtain ⟨d, d', hd, rfl⟩ := hr
  have hpart {frames : Array Frame} : Alike l Same frames _ _ :=
    (part_alike hc env.host.room).whole .nil ht (hmay hd)
  cases ht with
  | told hmode => exact .within _ hpart

end Render

end Stencil
