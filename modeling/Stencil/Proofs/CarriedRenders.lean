import Stencil.Proofs.CarriedActions
import Stencil.Proofs.Moved

/-!
# Renders in renamed heaps

A template that is rendered with renamed data in a heap that carries all the first one has gives
what it gave with the data before. The nodes of a body may stand at other positions in the second
render if its frame keeps the variables of loops by these.
-/

namespace Stencil

namespace Renaming

/-- What surrounds a body reaches the same in both renders. -/
structure Reaches (ρ : Renaming) (reach reach' : Render.Reach) : Prop where
  evaluates : ρ.Evaluates reach.ev
  ev : reach'.ev = reach.ev
  calls : reach'.calls = reach.calls
  yielding : ∀ {frames} name fallback,
    ρ.Follows id frames (reach.yielding name fallback) (reach'.yielding name fallback)
  including : ∀ {frames} name v,
    ρ.Follows id frames (reach.including name v) (reach'.including name (ρ.value v))

end Renaming

/-- The frame of a scope is there, and the loops that count their passes have begun. -/
structure Scope.Counting (frames : Array Frame) (s : Scope) : Prop where
  frame : s.frame < frames.size
  loops : ∀ l ∈ s.loops, l.counted = true → Assigned frames s.frame (.ofLoop l.position "loop")

theorem Scope.Counting.mono {before after : Array Frame} {s : Scope} (hs : s.Counting before)
    (hg : Grows before after) : s.Counting after :=
  ⟨Nat.lt_of_lt_of_le hs.frame hg.size,
    fun l hl hcounted => hg.assigned _ _ (hs.loops l hl hcounted)⟩

theorem Action.evaluateUnder_bind {α β : Type} (calls : Nat) (x : Eval α) (k : α → Eval β) :
    evaluateUnder calls (x >>= k) =
      evaluateUnder calls x >>= fun a => evaluateUnder calls (k a) := by
  funext w
  have hrun : (x >>= k).run calls w.heap = Eval.runOn (x.run calls w.heap) fun a => (k a).run calls :=
    rfl
  change _ = EStateM.bind (evaluateUnder calls x) (fun a => evaluateUnder calls (k a)) w
  unfold EStateM.bind evaluateUnder
  rw [hrun]
  cases x.run calls w.heap with
  | ok a h => rfl
  | error halt h => rfl

def Value.loop? : Value → Option Ref
  | .loop r => some r
  | _ => .none

theorem Render.parentLoop_run {s : Scope} {l : LoopScope} {v : Value} {w : World} (calls : Nat)
    (hl : s.loops.find? (·.counted) = some l)
    (hv : (w.heap.frames.getD s.frame []).get? (.ofLoop l.position "loop") = some v) :
    (Action.evaluateUnder calls (parentLoop s)).run w = .ok v.loop? w := by
  have hrun : (parentLoop s).run calls w.heap = .ok v.loop? w.heap := by
    have hframe (k : Frame → Eval (Option Ref)) : (Eval.frame s.frame >>= k).run calls
        w.heap = (k (w.heap.frames.getD s.frame [])).run calls w.heap := rfl
    unfold parentLoop
    rw [hl]
    dsimp only
    rw [hframe, hv]
    cases v <;> rfl
  change Action.evaluateUnder calls (parentLoop s) w = _
  unfold Action.evaluateUnder
  rw [hrun]

namespace Renaming

open Render

variable {ρ : Renaming} {α β γ δ : Type} {f : α → β} {g : γ → δ} {frames : Array Frame}
  {reach reach' : Reach} {s : Scope}

section Constructs

variable (hr : ρ.Reaches reach reach')

include hr

theorem evaluate_follows {e : Eval α} {e' : Eval β} (he : ρ.Carried f e e') :
    ρ.Follows f frames (reach.evaluate e) (reach'.evaluate e') := by
  unfold Reach.evaluate
  rw [hr.calls]
  exact .evaluateUnder reach.calls he

theorem evalCode_follows (s : Scope) (m : Text.Position → Text.Position) (code : Code) :
    ρ.Follows ρ.value frames (evalCode reach s code)
      (evalCode reach' (ρ.scope s) (code.moved m)) := by
  refine evaluate_follows hr ?_
  rw [hr.ev]
  exact hr.evaluates.eval s code.expr

theorem test_follows (s : Scope) (m : Text.Position → Text.Position) (code : Code) :
    ρ.Follows id frames (test reach s code) (test reach' (ρ.scope s) (code.moved m)) := by
  refine .bind (evalCode_follows hr s m code) fun _ v _ => .heap fun h h' hc => ?_
  rw [hc.truth_value]
  exact .pure _

omit hr in
theorem textOf_follows (v : Value) :
    ρ.Follows id frames (textOf v) (textOf (ρ.value v)) := by
  refine .heap fun h h' hc => .ofExcept ?_
  rw [hc.outputText_value]
  cases v.outputText h <;> rfl

omit hr in
theorem parentLoop_follows (hs : s.Counting frames) (calls : Nat) :
    ρ.Follows (Option.map ρ.cell) frames (Action.evaluateUnder calls (parentLoop s))
      (Action.evaluateUnder calls (parentLoop (ρ.scope s))) := by
  intro w w' hw hg
  have hfind : (ρ.scope s).loops.find? (·.counted) =
      (s.loops.find? (·.counted)).map (ρ.loopScope s.frame) := List.find?_map
  cases hl : s.loops.find? (·.counted) with
  | none =>
    have hrun : Action.evaluateUnder calls (parentLoop s) = pure none := by
      unfold parentLoop
      rw [hl]
      rfl
    have hrun' : Action.evaluateUnder calls (parentLoop (ρ.scope s)) = pure none := by
      unfold parentLoop
      rw [hfind, hl]
      rfl
    rw [hrun, hrun']
    exact .ok hw (.refl _)
  | some l =>
    have hcounted := List.find?_some hl
    have hassigned := (hs.mono hg).loops l (List.mem_of_find?_eq_some hl) hcounted
    obtain ⟨v, hv⟩ := Option.isSome_iff_exists.mp hassigned
    have hrun := parentLoop_run calls hl hv
    have hl' : (ρ.scope s).loops.find? (·.counted) = some (ρ.loopScope s.frame l) := by
      rw [hfind, hl, Option.map_some]
    have hrun' := parentLoop_run calls hl' (hw.heap.assigned s.frame _ v hv)
    rw [hrun, hrun']
    have hloop : (ρ.value v).loop? = v.loop?.map ρ.cell := by cases v <;> rfl
    rw [hloop]
    exact .ok hw (.refl _)

omit hr in
theorem materializedBy_carried {ev : Evaluator} (hev : ρ.Evaluates ev) (v : Value) :
    ρ.Carried ρ.cell (materializedBy ev v) (materializedBy ev (ρ.value v)) := by
  have hother {v : Value} (hv : ∀ r, v ≠ .list r) : materializedBy ev v = (do
      Eval.allocate (.list (← ev.collect v))) := by
    unfold materializedBy
    split
    · exact absurd rfl (hv _)
    · rfl
  by_cases hv : ∃ r, v = .list r
  · obtain ⟨r, rfl⟩ := hv
    exact .pure
  · have hv' : ∀ r, ρ.value v ≠ .list r := by
      intro r h
      cases v <;> simp [value] at h hv
    rw [hother fun r h => hv ⟨r, h⟩, hother hv']
    exact .bind (hev.collect v) fun items => .allocate (.list items)

omit hr in
theorem sourceValue_value (v : Value) : sourceValue (ρ.value v) = ρ.value (sourceValue v) := by
  cases v <;> rfl

/-- What comes after the beginning of a loop may count on the value of a loop that counts its
passes. -/
theorem startLoop_follows (hs : s.Counting frames) (l : LoopScope) (counts : Bool) (v : Value)
    (hcounts : l.counted = true → counts = true) {k k' : Value → Action Output}
    (hk : ∀ frames' it, Grows frames frames' →
      (l.counted = true → Assigned frames' s.frame (.ofLoop l.position "loop")) →
      ρ.Follows id frames' (k it) (k' (ρ.value it))) :
    ρ.Follows id frames (reach.evaluate (startLoop reach.ev s l counts v) >>= k)
      (reach'.evaluate (startLoop reach'.ev (ρ.scope s) (ρ.loopScope s.frame l) counts
        (ρ.value v)) >>= k') := by
  unfold startLoop
  rw [hr.ev]
  cases hcounted : counts with
  | false =>
    refine .bind (evaluate_follows hr (toIterator_carried v)) fun frames₁ it hg => ?_
    refine hk frames₁ it hg fun h => ?_
    rw [hcounts h] at hcounted
    cases hcounted
  | true =>
    unfold Reach.evaluate
    rw [hr.calls]
    simp only [if_true, Action.evaluateUnder_bind, bind_assoc]
    refine .bind (.evaluateUnder _ (materializedBy_carried hr.evaluates v))
      fun frames₁ items hg₁ => ?_
    refine .bind (parentLoop_follows (hs.mono hg₁) _) fun frames₂ parent hg₂ => ?_
    refine .bind (.evaluateUnder _ (newLoop_carried items parent)) fun frames₃ r hg₃ => ?_
    have hg := (hg₁.trans hg₂).trans hg₃
    by_cases hcount : l.counted = true
    · rw [if_pos hcount, if_pos (show (ρ.loopScope s.frame l).counted = true from hcount),
        Action.evaluateUnder_bind, Action.evaluateUnder_bind, bind_assoc, bind_assoc]
      refine .bindRan (.evaluateUnder _
        (.bindVariable s.frame (.ofLoop l.position "loop") (.loop r))) fun _ w _ w₁ _ hrun hgw hgw₁ => ?_
      refine .bind (.evaluateUnder _ (toIterator_carried (.loop r))) fun frames₄ it hg₄ => ?_
      refine hk frames₄ it (((hg.trans hgw).trans hgw₁).trans hg₄) fun _ => hg₄.assigned _ _ ?_
      cases hrun
      exact (assigned_bind ..).mpr
        (.inl ⟨rfl, rfl, Nat.lt_of_lt_of_le hs.frame (hg.trans hgw).size⟩)
    · rw [if_neg hcount, if_neg (show ¬ (ρ.loopScope s.frame l).counted = true from hcount)]
      refine .bind (.evaluateUnder _ (toIterator_carried (.loop r))) fun frames₄ it hg₄ => ?_
      exact hk frames₄ it (hg.trans hg₄) fun h => absurd h hcount

theorem eachItem_follows (it : Value) {k k' : Value → Action Output}
    (hk : ∀ frames', Grows frames frames' → ∀ v, ρ.Follows id frames' (k v) (k' (ρ.value v)))
    (fuel : Nat) (out : Output) :
    ρ.Follows id frames (eachItem reach it k fuel out)
      (eachItem reach' (ρ.value it) k' fuel out) := by
  induction fuel generalizing out frames with
  | zero => exact .halted _
  | succ fuel ih =>
    unfold eachItem
    rw [hr.ev]
    refine .bind (evaluate_follows hr (hr.evaluates.next it)) fun _ next hg => ?_
    cases next with
    | none => exact .pure out
    | some v =>
      refine .bind (hk _ hg v) fun _ more hg' => ?_
      exact ih (fun _ hg'' v => hk _ ((hg.trans hg').trans hg'') v) _

omit hr in
theorem whileTrue_follows {again again' : Action Bool} {x x' : Action Output}
    (ha : ∀ frames', Grows frames frames' → ρ.Follows id frames' again again')
    (hx : ∀ frames', Grows frames frames' → ρ.Follows id frames' x x') (fuel : Nat)
    (out : Output) :
    ρ.Follows id frames (whileTrue again x fuel out) (whileTrue again' x' fuel out) := by
  induction fuel generalizing out frames with
  | zero => exact .halted _
  | succ fuel ih =>
    unfold whileTrue
    refine .bind (ha _ (.refl _)) fun _ go hg => ?_
    cases go with
    | false => exact .pure out
    | true =>
      refine .bind (hx _ hg) fun _ more hg' => ih (fun _ hg'' => ?_) (fun _ hg'' => ?_) _
      · exact ha _ ((hg.trans hg').trans hg'')
      · exact hx _ ((hg.trans hg').trans hg'')

end Constructs

theorem counting_inner {p : Text.Position} {target : Code} {body : List Node}
    (hs : s.Counting frames) (hbegun : (Render.loopScope p target body).counted = true →
      Assigned frames s.frame (.ofLoop p "loop")) :
    (innerScope s p target body).Counting frames where
  frame := hs.frame
  loops l hl hcounted := by
    rcases List.mem_cons.mp hl with rfl | hl
    · exact hbegun hcounted
    · exact hs.loops l hl hcounted

variable (ρ) in
/-- Lines of nodes that have moved are the same if boundaries are at the same lines. -/
theorem line_moved (r : Ref) (p : Text.Position) (hlined : ρ.lined) :
    (ρ.place r p).line = p.line := by
  rw [ρ.place_exact (ρ.lined_exact hlined)]
  rfl

variable (ρ) in
theorem loopScope_moved (r : Ref) (p : Text.Position) (target : Code) (body : List Node) :
    Render.loopScope (ρ.place r p) (target.moved (ρ.place r)) (Node.movedAll (ρ.place r) body) =
      ρ.loopScope r (Render.loopScope p target body) := by
  unfold Render.loopScope
  rw [Node.mention_moved]
  rfl

variable (ρ) in
theorem innerScope_moved (s : Scope) (p : Text.Position) (target : Code) (body : List Node) :
    innerScope (ρ.scope s) (ρ.place s.frame p) (target.moved (ρ.place s.frame))
      (Node.movedAll (ρ.place s.frame) body) = ρ.scope (innerScope s p target body) := by
  unfold innerScope
  rw [loopScope_moved]
  rfl

theorem assigned_follows (hr : ρ.Reaches reach reach') (s : Scope) (p : Text.Position)
    (target : Code) (body : List Node) (v : Value) :
    ρ.Follows id frames (assigned reach s p target body v)
      (assigned reach' (ρ.scope s) (ρ.place s.frame p) (target.moved (ρ.place s.frame))
        (Node.movedAll (ρ.place s.frame) body) (ρ.value v)) := by
  refine evaluate_follows hr ?_
  rw [hr.ev]
  exact hr.evaluates.assign s (fun name w => .bindVariable s.frame (.ofLoop p name) w) target.expr v

mutual

theorem node_follows (hr : ρ.Reaches reach reach') : ∀ (n : Node) {s : Scope}
    {frames : Array Frame}, s.Counting frames → ρ.Follows id frames (node reach s n)
      (node reach' (ρ.scope s) (n.moved (ρ.place s.frame)))
  | .data _ text, _, _, _ => .pure _
  | .output p code escaped, s, _, _ => by
    unfold Node.moved node
    refine .bind (.markLine (ρ.line_moved _ p)) fun _ _ _ => ?_
    refine .bind (evalCode_follows hr s _ code) fun _ v _ => ?_
    exact .bind (textOf_follows v) fun _ text _ => .pure _
  | .yielding p name fallback, _, _, _ => by
    unfold Node.moved node
    exact .bind (.markLine (ρ.line_moved _ p)) fun _ _ _ => hr.yielding name fallback
  | .including p name none, _, _, _ => by
    unfold Node.moved node
    refine .bind (.markLine (ρ.line_moved _ p)) fun _ _ _ => ?_
    have hempty : ρ.Carried ρ.value (Eval.newDict #[]) (Eval.newDict #[]) := by
      have h := Carried.newDict (ρ := ρ) #[]
      rwa [Array.map_empty] at h
    exact .bind (evaluate_follows hr hempty) fun _ v _ => hr.including name v
  | .including p name (some code), s, _, _ => by
    unfold Node.moved node
    refine .bind (.markLine (ρ.line_moved _ p)) fun _ _ _ => ?_
    exact .bind (evalCode_follows hr s _ code) fun _ v _ => hr.including name v
  | .conditional p t body others otherwise, s, _, hs => by
    unfold Node.moved node
    refine .bind (.markLine (ρ.line_moved _ p)) fun _ _ hg => ?_
    refine .bind (test_follows hr s _ t) fun _ holds hg' => ?_
    have hs' := (hs.mono hg).mono hg'
    cases holds with
    | true => exact nodes_follows hr body #[] hs'
    | false =>
      exact branches_follows hr others hs' fun _ hg'' => nodes_follows hr otherwise #[] (hs'.mono hg'')
  | .loop p k target source body, s, _, hs => by
    rw [Node.moved, node_loop, node_loop]
    unfold started
    simp only [bind_assoc]
    refine .bind (.markLine (ρ.line_moved _ p)) fun _ _ hg => ?_
    refine .bind (evalCode_follows hr s _ source) fun frames₂ v hg' => ?_
    have hs₂ := (hs.mono hg).mono hg'
    rw [loopScope_moved, Node.mention_moved, sourceValue_value]
    refine startLoop_follows hr hs₂ (Render.loopScope p target body) _ _
      (fun h => (Bool.and_eq_true_iff.mp h).1) fun frames₃ it hg₃ hbegun => ?_
    refine eachItem_follows hr it (fun frames₄ hg₄ v => ?_) _ _
    unfold itemPass
    rw [innerScope_moved]
    refine .bind (assigned_follows hr s p target body v) fun frames₅ _ hg₅ => ?_
    refine nodes_follows hr body #[] (counting_inner (((hs₂.mono hg₃).mono hg₄).mono hg₅) fun h => ?_)
    exact (hg₄.trans hg₅).assigned _ _ (hbegun h)
  | .whileLoop p t body, s, _, hs => by
    rw [Node.moved, node_while, node_while]
    refine .bind (.markLine (ρ.line_moved _ p)) fun _ _ hg => ?_
    refine whileTrue_follows (fun _ _ => test_follows hr s _ t) (fun _ hg' => ?_) _ _
    refine .bind (nodes_follows hr body #[] ((hs.mono hg).mono hg')) fun _ out _ => ?_
    exact .bind (.markLine (ρ.line_moved _ p)) fun _ _ _ => .pure out

theorem nodes_follows (hr : ρ.Reaches reach reach') : ∀ (ns : List Node) (out : Output) {s : Scope}
    {frames : Array Frame}, s.Counting frames → ρ.Follows id frames (nodes reach s out ns)
      (nodes reach' (ρ.scope s) out (Node.movedAll (ρ.place s.frame) ns))
  | [], out, _, _, _ => .pure out
  | n :: ns, out, _, _, hs => by
    refine .bind (node_follows hr n hs) fun _ more hg => ?_
    exact nodes_follows hr ns _ (hs.mono hg)

theorem branches_follows (hr : ρ.Reaches reach reach') : ∀ (others : List (Code × List Node))
    {s : Scope} {frames : Array Frame} {x x' : Action Output}, s.Counting frames →
      (∀ frames', Grows frames frames' → ρ.Follows id frames' x x') →
      ρ.Follows id frames (branches reach s x others)
        (branches reach' (ρ.scope s) x' (Node.movedOthers (ρ.place s.frame) others))
  | [], _, _, _, _, _, hx => hx _ (.refl _)
  | b :: others, _, _, _, _, hs, hx => by
    unfold Node.movedOthers branches
    refine .bind (branch_follows hr b hs) fun _ taken hg => ?_
    cases taken with
    | some out => exact .pure out
    | none => exact branches_follows hr others (hs.mono hg) fun _ hg' => hx _ (hg.trans hg')

theorem branch_follows (hr : ρ.Reaches reach reach') : ∀ (b : Code × List Node) {s : Scope}
    {frames : Array Frame}, s.Counting frames → ρ.Follows id frames (branch reach s b)
      (branch reach' (ρ.scope s) (Node.movedOther (ρ.place s.frame) b))
  | (t, body), s, _, hs => by
    unfold Node.movedOther branch
    refine .bind (.markLine (ρ.line_moved _ t.position)) fun _ _ hg => ?_
    refine .bind (test_follows hr s _ t) fun _ holds hg' => ?_
    cases holds with
    | true => exact .bind (nodes_follows hr body #[] ((hs.mono hg).mono hg')) fun _ out _ => .pure _
    | false => exact .pure none

end

/-- A body has a frame of its own, which keeps its loops where they are. -/
theorem body_follows (hr : ρ.Reaches reach reach') (t : Template) (path : String) (data : Ref)
    (ns : List Node) :
    ρ.Follows id frames (body reach t path data ns) (body reach' t path (ρ.data data) ns) := by
  refine .bindRan (evaluate_follows hr (.newFrame [])) fun frame w w' w₁ hw hrun _ _ => ?_
  have hframe : frame = w.heap.frames.size ∧ frame < w₁.heap.frames.size := by
    cases hrun
    exact ⟨rfl, by simp⟩
  have hplace : ρ.place frame = id := hframe.1 ▸ hw.heap.nextPlace 0
  have hcounting : Scope.Counting w₁.heap.frames ⟨data, t.lenient, frame, [], [], path⟩ :=
    ⟨hframe.2, nofun⟩
  have hnodes := nodes_follows hr ns #[] hcounting
  rwa [hplace, Node.movedAll_id] at hnodes

/-- Parts of a render end alike with their data, wherever they are entered. -/
def PartsFollow (ρ : Renaming) (again again' : Part → Ref → Sections → Action Output) : Prop :=
  ∀ {frames} p data sections,
    ρ.Follows id frames (again p data sections) (again' p (ρ.data data) sections)

variable (ρ) in
theorem dataWith_value (base : Bindings) (entries : Array (Value × Value)) :
    dataWith (ρ.bindings base) (entries.map ρ.entry) = ρ.renderData (dataWith base entries) := by
  unfold dataWith
  rw [Array.foldl_map]
  change Array.foldl _ (ρ.renderData ⟨base, []⟩) entries = _
  refine Array.foldl_hom ρ.renderData fun d e => ?_
  obtain ⟨k, v⟩ := e
  have hput (name : String) : (⟨(ρ.bindings d.names).put name (ρ.value v), d.otherKeys.map ρ.value⟩ :
      RenderData) = ρ.renderData { d with names := d.names.put name v } := by
    rw [← ρ.bindings_put]
    rfl
  have hother : (⟨ρ.bindings d.names, d.otherKeys.map ρ.value ++ [ρ.value k]⟩ : RenderData) =
      ρ.renderData { d with otherKeys := d.otherKeys ++ [k] } := by
    unfold renderData
    rw [List.map_append, List.map_singleton]
  cases k with
  | str name => exact hput name
  | _ => exact hother

variable (ρ) in
theorem baseData_value (env : Environment) :
    (ρ.environment env).baseData = ρ.bindings env.baseData :=
  (ρ.bindings_update env.globals env.shared).symm

section Entered

variable {again again' : Part → Ref → Sections → Action Output}
  (hagain : ρ.PartsFollow again again') (env : Environment)

include hagain

theorem yieldTo_follows (data : Ref) (sections : Sections) (name fallback : String) :
    ρ.Follows id frames (yieldTo again data sections name fallback)
      (yieldTo again' (ρ.data data) sections name fallback) := by
  unfold yieldTo
  cases sections.lookup name with
  | none => exact .pure _
  | some s => exact .here fun b b' hb => .within (hb.ofSection _ _ _) (hagain _ data sections)

theorem includePartial_follows (calls : Nat) (name : String) (v : Value) :
    ρ.Follows id frames (includePartial env calls again name v)
      (includePartial (ρ.environment env) calls again' name (ρ.value v)) := by
  have hwrong (v : Value) : ρ.Follows (α := Output) id frames (Action.fault (noMapping name v))
      (Action.fault (noMapping name (ρ.value v))) := by
    unfold noMapping
    rw [ρ.kindName_value]
    exact .halted _
  cases v with
  | dict r =>
    refine .here fun b b' hb => ?_
    refine .bind (.checkDepth hb name) fun _ _ _ => ?_
    refine .bind (loadUnder_follows env calls name) fun _ t _ => ?_
    refine .heap fun h h' hc => ?_
    dsimp only
    rw [hc.dictEntries, baseData_value, dataWith_value]
    refine .bind (.evaluateUnder calls (.newData _)) fun _ data _ => ?_
    exact .within (hb.child _ _ _ _) (hagain _ data [])
  | _ => exact hwrong _

theorem extend_follows (calls : Nat) (name : String) (data : Ref) (sections : Sections) :
    ρ.Follows id frames (extend env calls again name data sections)
      (extend (ρ.environment env) calls again' name (ρ.data data) sections) := by
  refine .here fun b b' hb => ?_
  refine .bind (.checkCycle hb name) fun _ _ _ => .bind (.checkDepth hb name) fun _ _ _ => ?_
  refine .bind (loadUnder_follows env calls name) fun _ t _ => ?_
  exact .within (hb.child _ _ _ _) (hagain _ data sections)

theorem around_reaches {ev : Evaluator} (hev : ρ.Evaluates ev) (calls : Nat) (data : Ref)
    (sections : Sections) : ρ.Reaches (around env ev calls again data sections)
      (around (ρ.environment env) ev calls again' (ρ.data data) sections) :=
  ⟨hev, rfl, rfl, yieldTo_follows hagain data sections, includePartial_follows hagain env calls⟩

end Entered

theorem part_follows {ev : Evaluator} (hev : ρ.Evaluates ev) (env : Environment) (n : Nat) :
    ρ.PartsFollow (part env ev n) (part (ρ.environment env) ev n) := by
  induction n with
  | zero => exact fun _ _ _ => .halted _
  | succ n ih =>
    intro frames p data sections
    cases p with
    | sectionBody s => exact body_follows (around_reaches ih env hev _ data sections) _ _ _ _
    | whole t =>
      cases ht : t.tree with
      | page ns =>
        rw [part_page env ev n ht, part_page _ ev n ht]
        exact body_follows (around_reaches ih env hev _ data sections) _ _ _ _
      | extension position layout own =>
        rw [part_extension env ev n ht, part_extension _ ev n ht]
        refine .bind (.markLine fun _ => rfl) fun _ _ _ => ?_
        exact extend_follows ih env _ layout data _

theorem renderData_follows (env : Environment) (data : Value) (more : Bindings) :
    ρ.Follows ρ.renderData frames (Template.renderData env data more)
      (Template.renderData (ρ.environment env) (ρ.value data) (ρ.bindings more)) := by
  have hdata (given : Array (Value × Value)) : ρ.Follows ρ.renderData frames
      (do
        let d := dataWith env.baseData given
        return { d with names := d.names.update more })
      (do
        let d := dataWith (ρ.environment env).baseData (given.map ρ.entry)
        return { d with names := d.names.update (ρ.bindings more) }) := by
    refine .deliver ?_
    rw [baseData_value, dataWith_value]
    unfold renderData
    rw [bindings_update]
  have hwrong (v : Value) : ρ.Follows (α := RenderData) ρ.renderData frames
      (Action.fault (Template.notMapping v)) (Action.fault (Template.notMapping (ρ.value v))) := by
    unfold Template.notMapping
    rw [ρ.kindName_value]
    exact .halted _
  cases data with
  | none =>
    have hnone := hdata #[]
    rwa [Array.map_empty] at hnone
  | dict r =>
    refine .heap fun h h' hc => ?_
    rw [hc.dictEntries]
    exact hdata (h.dictEntries r)
  | _ => exact hwrong _

theorem renderBy_follows {ev : Evaluator} (hev : ρ.Evaluates ev) (t : Template) (env : Environment)
    (data : Value) (more : Bindings) : ρ.Follows id frames (t.renderBy ev env data more)
      (t.renderBy ev (ρ.environment env) (ρ.value data) (ρ.bindings more)) := by
  refine .bind (renderData_follows env data more) fun _ d _ => ?_
  refine .bind (.evaluateUnder 0 (.newData d)) fun _ r _ => ?_
  exact .within (.refl _) (part_follows hev env env.host.room _ r [])

end Renaming

end Stencil
