import Stencil.Proofs.Entries
import Stencil.Proofs.LoopPlaces
import Stencil.Proofs.SafeActions
import Stencil.Proofs.SafeLoops

/-!
# Safe renders

What a render does is safe for those who let it do with what is new as it likes: by induction on
nodes, and then on the boundaries that are entered one inside the other.
-/

namespace Stencil

variable {l : Licence} {h : Heap} {w : World}

/-- All that a render needs besides the variables of its loops: it may do with what is new as it
likes, and if it is free, move any loop. -/
structure Licence.Allows (l : Licence) (free : Prop) (env : Environment) : Prop where
  moves : ∀ r, free ∨ l.start.cells.size ≤ r → l.moves r
  asks : ∀ r, l.start.cells.size ≤ r → l.asks r
  frames : ∀ r x, l.start.frames.size ≤ r → l.binds r x
  env : Suits l.start env

def Licence.BindsIn (l : Licence) (frame : Ref) (places : List Text.Position) : Prop :=
  ∀ p ∈ places, ∀ name, l.binds frame (.ofLoop p name)

namespace Render

/-- Wherever it goes on, rendering is safe for those who allow it. -/
structure Reach.IsSafe (free : Prop) (env : Environment) (reach : Reach) : Prop where
  ev : ∀ {l : Licence}, l.Allows free env → reach.ev.IsSafe l
  own : reach.ev.TakesOwn
  yielding : ∀ {l : Licence} {w : World} (name fallback : String), l.Allows free env →
    Action.IsSafe l w (reach.yielding name fallback)
  including : ∀ {l : Licence} {w : World} (name : String) {v : Value}, l.Allows free env →
    Suits w.heap v → Action.IsSafe l w (reach.including name v)

section Nodes

open Stencil.Action (IsSafe)

variable {free : Prop} {env : Environment} {reach : Reach} (hr : reach.IsSafe free env)
  (hl : l.Allows free env) {scope : Scope}

include hr hl

theorem evalCode_safe (code : Code) : IsSafe l w (evalCode reach scope code) :=
  .evaluateUnder _ (hr.ev hl).eval

theorem test_safe (code : Code) : IsSafe l w (test reach scope code) :=
  .bind (evalCode_safe hr hl code) fun _ _ => .heap fun _ => .pure (suits_bool _)

omit hr hl in
theorem evaluate_ok {α : Type} {e : Eval α} {a : α} {h : Heap}
    (he : e.run reach.calls w.heap = .ok a h) :
    (reach.evaluate e).run w = .ok a { w with heap := h } := by
  change Action.evaluateUnder reach.calls e w = _
  rw [Action.evaluateUnder, he]

omit hr hl in
theorem evaluate_error {α : Type} {e : Eval α} {halt : Halt} {h : Heap}
    (he : e.run reach.calls w.heap = .error halt h) :
    (reach.evaluate e).run w = .error (Action.stopOf w.boundary halt) { w with heap := h } := by
  change Action.evaluateUnder reach.calls e w = _
  rw [Action.evaluateUnder, he]

omit hr hl in
theorem textOf_safe (v : Value) : IsSafe l w (textOf v) :=
  .heap fun _ => .ofExcept fun _ => suits_string _

omit hr hl in
theorem sourceValue_suits {v : Value} (hv : Suits h v) : Suits h (sourceValue v) := by
  unfold sourceValue
  split
  · exact (suits_tupleValue _).mpr suits_nil
  · exact (suits_tupleValue _).mpr suits_nil
  · exact hv

omit hr hl in
theorem bindTarget_safe {ev : Evaluator} (hev : ev.IsSafe l) {ls : LoopScope}
    {target : Expr}
    (hbinds : ∀ name ∈ target.storedNames, l.binds scope.frame (.ofLoop ls.position name))
    {v : Value} (hv : Suits h v) : Safe l h (bindTarget ev scope ls target v) :=
  Safe.assign hev target (fun hid hw => .bindVariable (hbinds _ hid) hw) hv

theorem eachItem_safe {body : Value → Action Output} (fuel : Nat) {w : World} {it : Value}
    (hit : Suits w.heap it) (out : Output)
    (hbody : ∀ {w' : World} {v : Value}, l.Leads w.heap w'.heap → Suits w'.heap v →
      IsSafe l w' (body v)) : IsSafe l w (eachItem reach it body fuel out) := by
  induction fuel generalizing w out with
  | zero => exact .throw _
  | succ fuel ih =>
    refine .bind (.evaluateUnder _ ((hr.ev hl).next hit)) fun {_ item} hled hitem => ?_
    cases item with
    | none => exact .pure (suits_output out)
    | some v =>
      refine .bind (hbody hled (suits_some.mp hitem)) fun hled' _ => ?_
      exact ih (hit.after (hled.trans hled')) _ fun hled'' hv =>
        hbody ((hled.trans hled').trans hled'') hv

/-- A loop that was made since it was allowed to asks its own iterator. -/
theorem nextOwn_safe {r : Ref} {s : LoopState} (hloop : w.heap.cells[r]? = some (.loop s))
    (hnew : l.start.cells.size ≤ r) :
    IsSafe l w (reach.evaluate (reach.ev.next (.iterator .generator (r + 1)))) := by
  refine .evaluateUnder _ fun hs hled n => ?_
  obtain ⟨c, hc, hown⟩ := hs.followed hloop
  rw [hr.own (Heap.cursor_of_cell hc ▸ hown)]
  obtain ⟨item, h', hrun, hl', hs', hitem⟩ :=
    next_own hs hloop hled (hl.moves r (.inr hnew)) (hl.asks r hnew) n
  rw [hrun]
  exact .ok hl' hs' hitem

theorem eachItem_own_safe {body : Value → Action Output} (fuel : Nat) {w : World} {r : Ref}
    {s : LoopState} (hloop : w.heap.cells[r]? = some (.loop s))
    (hnew : l.start.cells.size ≤ r) (out : Output)
    (hbody : ∀ {w' : World} {v : Value}, l.Leads w.heap w'.heap → Suits w'.heap v →
      IsSafe l w' (body v)) :
    IsSafe l w (eachItem reach (.iterator .generator (r + 1)) body fuel out) := by
  induction fuel generalizing w s out with
  | zero => exact .throw _
  | succ fuel ih =>
    refine .bind (nextOwn_safe hr hl hloop hnew) fun {_ item} hled hitem => ?_
    cases item with
    | none => exact .pure (suits_output out)
    | some v =>
      refine .bind (hbody hled (suits_some.mp hitem)) fun hled' _ => ?_
      obtain ⟨i, hloop', -⟩ := (hled.trans hled').loops hloop
      exact ih hloop' _ fun hled'' hv => hbody ((hled.trans hled').trans hled'') hv

omit hr hl in
theorem whileTrue_safe {again : Action Bool} {body : Action Output}
    (hagain : ∀ {w : World}, IsSafe l w again) (hbody : ∀ {w : World}, IsSafe l w body)
    (fuel : Nat) {w : World} (out : Output) : IsSafe l w (whileTrue again body fuel out) := by
  induction fuel generalizing w out with
  | zero => exact .throw _
  | succ fuel ih =>
    refine .bind hagain fun {_ goes} _ _ => ?_
    split
    · exact .bind hbody fun _ _ => ih _
    · exact .pure (suits_output out)

theorem loop_safe (p : Text.Position) (k : LoopKeyword) (target source : Code) (body : List Node)
    (hbinds : ∀ name, l.binds scope.frame (.ofLoop p name))
    (hbody : ∀ {w : World}, IsSafe l w (nodes reach (innerScope scope p target body) #[] body)) :
    IsSafe l w (node reach scope (.loop p k target source body)) := by
  rw [node_loop]
  refine .bind (.markLine _) fun _ _ => ?_
  have hpass {w : World} {v : Value} (hv : Suits w.heap v) :
      IsSafe l w (itemPass reach scope p target body v) :=
    .bind (.evaluateUnder _ (bindTarget_safe (hr.ev hl) (fun name _ => hbinds name) hv)) fun _ _ =>
      hbody
  unfold started
  rw [bind_assoc]
  refine .bind (evalCode_safe hr hl source) fun {w₁ v} _ hv => ?_
  have hv := sourceValue_suits hv
  cases hcounts : Node.mention "loop" body with
  | false =>
    refine .bind (.evaluateUnder _ (Safe.toIterator hv)) fun _ hit => ?_
    exact eachItem_safe hr hl _ hit _ fun _ hv => hpass hv
  | true =>
    intro hs hled
    rw [EStateM.run_bind]
    rcases startLoop_made scope (loopScope p target body) (hr.ev hl) (fun _ => hbinds _) hv hs hled
        reach.calls with
      ⟨items, h₁, h₂, hh₂, hrun, hl₁, -, -, hl₂, hs₂⟩ | ⟨halt, h₁, hrun, hl₁, hs₁⟩
    · rw [evaluate_ok hrun]
      have hloop : h₂.cells[h₁.cells.size]? =
          some (.loop ⟨items, (h₁.listItems items).size, 0, h₁.parentOf scope⟩) := by
        rw [hh₂]
        exact made_loop _ _ _ _
      have hsafe := eachItem_own_safe (w := { w₁ with heap := h₂ }) hr hl Evaluator.mostItems hloop
        (Nat.le_trans hled.size_le hl₁.size_le) #[] fun _ hv => hpass hv
      exact (hsafe hs₂ (hled.trans hl₂)).after hl₂
    · rw [evaluate_error hrun]
      exact .error hl₁ hs₁

omit hr hl

mutual

theorem node_safe (hr : reach.IsSafe free env) (hl : l.Allows free env) : ∀ (n : Node)
    {w : World} {scope : Scope}, l.BindsIn scope.frame n.loopPlaces →
    IsSafe l w (node reach scope n)
  | .data _ text, w, scope, _ => by
    unfold node
    exact .pure (suits_output _)
  | .output p code escaped, w, scope, _ => by
    unfold node
    refine .bind (.markLine _) fun _ _ => .bind (evalCode_safe hr hl code) fun _ _ => ?_
    exact .bind (textOf_safe _) fun _ _ => .pure (suits_output _)
  | .yielding p name fallback, w, scope, _ => by
    unfold node
    exact .bind (.markLine _) fun _ _ => hr.yielding name fallback hl
  | .including p name given, w, scope, _ => by
    unfold node
    refine .bind (.markLine _) fun _ _ => ?_
    cases given with
    | none =>
      refine .bind (.evaluateUnder _ (.newDict (suits_of_isEmpty rfl))) fun _ hv => ?_
      exact hr.including name hl hv
    | some code =>
      exact .bind (evalCode_safe hr hl code) fun _ hv => hr.including name hl hv
  | .conditional p t body others otherwise, w, scope, hbinds => by
    unfold node
    refine .bind (.markLine _) fun _ _ => .bind (test_safe hr hl t) fun {_ holds} _ _ => ?_
    have hsub {q : Text.Position} (hq : q ∈ Node.loopPlacesOf body ∨
        q ∈ Node.loopPlacesOfOthers others ∨ q ∈ Node.loopPlacesOf otherwise) (name : String) :
        l.binds scope.frame (.ofLoop q name) := by
      refine hbinds q ?_ name
      unfold Node.loopPlaces
      simpa [or_assoc] using hq
    cases holds with
    | true => exact nodes_safe hr hl body fun q hq => hsub (.inl hq)
    | false =>
      refine branches_safe hr hl others (fun q hq => hsub (.inr (.inl hq))) fun {w} => ?_
      exact nodes_safe hr hl otherwise fun q hq => hsub (.inr (.inr hq))
  | .loop p k target source body, w, scope, hbinds => by
    refine loop_safe hr hl p k target source body (hbinds p List.mem_cons_self) fun {w} => ?_
    exact nodes_safe hr hl body fun q hq => hbinds q (List.mem_cons_of_mem _ hq)
  | .whileLoop p t body, w, scope, hbinds => by
    rw [node_while]
    refine .bind (.markLine _) fun _ _ => whileTrue_safe (test_safe hr hl t) ?_ _ _
    exact .bind (nodes_safe hr hl body hbinds) fun _ _ => .bind (.markLine _) fun _ _ =>
      .pure (suits_output _)

theorem nodes_safe (hr : reach.IsSafe free env) (hl : l.Allows free env) : ∀ (ns : List Node)
    {w : World} {scope : Scope} {out : Output},
    l.BindsIn scope.frame (Node.loopPlacesOf ns) → IsSafe l w (nodes reach scope out ns)
  | [], w, scope, out, _ => by
    unfold nodes
    exact .pure (suits_output out)
  | n :: ns, w, scope, out, hbinds => by
    unfold nodes
    refine .bind (node_safe hr hl n fun q hq => hbinds q (List.mem_append_left _ hq)) fun _ _ => ?_
    exact nodes_safe hr hl ns fun q hq => hbinds q (List.mem_append_right _ hq)

theorem branches_safe (hr : reach.IsSafe free env) (hl : l.Allows free env) :
    ∀ (others : List (Code × List Node)) {w : World} {scope : Scope} {otherwise : Action Output},
    l.BindsIn scope.frame (Node.loopPlacesOfOthers others) →
    (∀ {w : World}, IsSafe l w otherwise) → IsSafe l w (branches reach scope otherwise others)
  | [], w, scope, otherwise, _, hotherwise => by
    unfold branches
    exact hotherwise
  | b :: bs, w, scope, otherwise, hbinds, hotherwise => by
    unfold branches
    have hfirst : IsSafe l w (branch reach scope b) :=
      branch_safe hr hl b fun q hq => hbinds q (List.mem_append_left _ hq)
    refine .bind hfirst fun {_ taken} _ _ => ?_
    cases taken with
    | some out => exact .pure (suits_output out)
    | none =>
      exact branches_safe hr hl bs (fun q hq => hbinds q (List.mem_append_right _ hq)) hotherwise

theorem branch_safe (hr : reach.IsSafe free env) (hl : l.Allows free env) :
    ∀ (b : Code × List Node) {w : World} {scope : Scope},
    l.BindsIn scope.frame (Node.loopPlacesOfOther b) → IsSafe l w (branch reach scope b)
  | (t, body), w, scope, hbinds => by
    unfold branch
    refine .bind (.markLine _) fun _ _ => .bind (test_safe hr hl t) fun {_ holds} _ _ => ?_
    cases holds with
    | true =>
      refine .bind (nodes_safe hr hl body hbinds) fun _ _ => .pure (suits_some.mpr (suits_output _))
    | false => exact .pure suits_none

end

end Nodes

/-- Expressions are evaluated and templates are loaded safely for those who allow it. -/
structure RunsSafely (free : Prop) (env : Environment) (ev : Evaluator) : Prop where
  evaluates : ∀ {l : Licence}, l.Allows free env → ev.IsSafe l
  own : ev.TakesOwn
  loads : ∀ {l : Licence}, l.Allows free env → env.LoadsSafely l

theorem standard_runsSafely (env : Environment) : RunsSafely True env Evaluator.standard where
  evaluates hl := Evaluator.standard_isSafe fun r => hl.moves r (.inl trivial)
  own := Evaluator.standard_takesOwn
  loads hl := Environment.loadsSafely_of_moves fun r => hl.moves r (.inl trivial)

section Parts

open Stencil.Action (IsSafe)

theorem suits_update {b more : Bindings} (hb : Suits h b) (hmore : Suits h more) :
    Suits h (b.update more) := by
  unfold BindingsOf.update
  induction more generalizing b with
  | nil => exact hb
  | cons e more ih =>
    obtain ⟨he, hmore⟩ := suits_cons.mp hmore
    exact ih (Safe.suits_put hb (suits_pair.mp he).2) hmore

theorem suits_renderData {d : RenderData} :
    Suits h d ↔ Suits h d.names ∧ Suits h d.otherKeys := by
  unfold Suits
  change (∀ x ∈ refs d.names ++ refs d.otherKeys, _) ↔ _
  simp only [List.mem_append, or_imp, forall_and]

theorem dataWith_suits {base : Bindings} {entries : Array (Value × Value)} (hb : Suits h base)
    (he : Suits h entries) : Suits h (dataWith base entries) := by
  unfold dataWith
  rw [← Array.foldl_toList]
  replace he := suits_toList.mpr he
  have hd : Suits h (⟨base, []⟩ : RenderData) := suits_renderData.mpr ⟨hb, suits_nil⟩
  generalize entries.toList = es, (⟨base, []⟩ : RenderData) = d at he hd ⊢
  induction es generalizing d with
  | nil => exact hd
  | cons e es ih =>
    obtain ⟨hentry, hes⟩ := suits_cons.mp he
    obtain ⟨hk, hv⟩ := suits_pair.mp hentry
    obtain ⟨hnames, hothers⟩ := suits_renderData.mp hd
    refine ih _ hes ?_
    dsimp only
    split
    · exact suits_renderData.mpr ⟨Safe.suits_put hnames hv, hothers⟩
    · have hlayout := suits_append.mpr ⟨hothers, suits_cons.mpr ⟨hk, suits_nil⟩⟩
      exact suits_renderData.mpr ⟨hnames, hlayout⟩

theorem baseData_suits {env : Environment} (henv : Suits h env) : Suits h env.baseData := by
  refine suits_update (henv.of_refs fun x hx => ?_) (henv.of_refs fun x hx => ?_)
  · exact List.mem_append_right _ (List.mem_append_left _ hx)
  · exact List.mem_append_right _ (List.mem_append_right _ hx)

variable {free : Prop} {env : Environment} {ev : Evaluator}

def PartsSafe (free : Prop) (env : Environment)
    (again : Part → Ref → Sections → Action Output) : Prop :=
  ∀ {l : Licence} {w : World} (p : Part) (data : Ref) (sections : Sections), l.Allows free env →
    IsSafe l w (again p data sections)

instance : Refers Entry := ⟨fun _ => []⟩

theorem suits_entry (e : Entry) : Suits h e := fun _ hx => nomatch hx

theorem sectionEntry_safe (data : Ref) (sections : Sections) (name : String) :
    IsSafe l w (sectionEntry data sections name) := by
  unfold sectionEntry
  split
  · exact .pure suits_none
  · exact .bind .here fun _ _ => .pure (suits_some.mpr (suits_entry _))

section Entered

variable (hruns : RunsSafely free env ev) (hl : l.Allows free env) (calls : Nat) (name : String)

include hruns hl

theorem partialEntry_safe {v : Value} (hv : Suits w.heap v) :
    IsSafe l w (partialEntry env calls name v) := by
  unfold partialEntry
  split
  · rename_i r
    refine .bind .here fun _ _ => .bind (.orReject fun _ => suits_unit _) fun _ _ => ?_
    refine .of_led fun hled => .bind (hruns.loads hl calls name (hl.env.after hled)) ?_
    intro w₁ t hled₁ _
    refine .heap fun hs => ?_
    have hdata := dataWith_suits (baseData_suits (hl.env.after (hled.trans hled₁)))
      (hs.dictEntries r)
    exact .bind (.evaluateUnder _ (.newData hdata)) fun _ _ => .pure (suits_entry _)
  · exact .fault _

theorem layoutEntry_safe (data : Ref) (sections : Sections) :
    IsSafe l w (layoutEntry env calls data sections name) := by
  unfold layoutEntry
  refine .bind .here fun _ _ => .bind (.orReject fun _ => suits_unit _) fun _ _ => ?_
  refine .bind (.orReject fun _ => suits_unit _) fun _ _ => ?_
  refine .of_led fun hled => .bind (hruns.loads hl calls name (hl.env.after hled)) fun _ _ => ?_
  exact .pure (suits_entry _)

end Entered

theorem render_safe {again : Part → Ref → Sections → Action Output}
    (hagain : PartsSafe free env again) (hl : l.Allows free env) (e : Entry) :
    IsSafe l w (e.render again) := .within _ (hagain _ _ _ hl)

theorem around_isSafe {again : Part → Ref → Sections → Action Output}
    (hagain : PartsSafe free env again) (hruns : RunsSafely free env ev) (calls : Nat)
    (data : Ref) (sections : Sections) :
    (around env ev calls again data sections).IsSafe free env where
  ev := hruns.evaluates
  own := hruns.own
  yielding name fallback hl := by
    change IsSafe _ _ (yieldTo again data sections name fallback)
    rw [yieldTo_eq]
    refine .bind (sectionEntry_safe data sections name) fun {_ entered} _ _ => ?_
    cases entered with
    | none => exact .pure (suits_output _)
    | some e => exact render_safe hagain hl e
  including name v hl hv := by
    change IsSafe _ _ (includePartial env calls again name v)
    rw [includePartial_eq]
    exact .bind (partialEntry_safe hruns hl calls name hv) fun _ _ => render_safe hagain hl _

theorem body_safe {reach : Reach} (hr : reach.IsSafe free env) (hl : l.Allows free env)
    (t : Template) (path : String) (data : Ref) (ns : List Node) :
    IsSafe l w (body reach t path data ns) := by
  intro hs hled
  unfold body
  have hframe : (Eval.newFrame []).run reach.calls w.heap =
      .ok w.heap.frames.size { w.heap with frames := w.heap.frames.push [] } := rfl
  rw [EStateM.run_bind, evaluate_ok hframe]
  have hnew : Safe l w.heap (Eval.newFrame []) := .newFrame nofun
  cases hframe ▸ hnew hs hled reach.calls with
  | ok hl' hs' _ =>
    have hbinds : l.BindsIn w.heap.frames.size (Node.loopPlacesOf ns) := fun p _ name =>
      hl.frames _ _ hled.frames_le
    let w' := { w with heap := { w.heap with frames := w.heap.frames.push [] } }
    have hnodes : IsSafe l w' (nodes reach ⟨data, t.lenient, w.heap.frames.size, [], [], path⟩ #[]
        ns) := nodes_safe hr hl ns hbinds
    exact (hnodes hs' (hled.trans hl')).after hl'

/-- By induction on the boundaries that may be entered inside. -/
theorem part_safe (hruns : RunsSafely free env ev) (n : Nat) :
    PartsSafe free env (part env ev n) := by
  induction n with
  | zero => exact fun _ _ _ _ => .fault _
  | succ n ih =>
    intro l w p data sections hl
    cases p with
    | sectionBody s =>
      unfold part
      exact body_safe (around_isSafe ih hruns _ _ _) hl _ _ _ _
    | whole t =>
      unfold part
      split
      · exact body_safe (around_isSafe ih hruns _ _ _) hl _ _ _ _
      · rw [extend_eq]
        exact .bind (.markLine _) fun _ _ =>
          .bind (layoutEntry_safe hruns hl _ _ _ _) fun _ _ => render_safe ih hl _

end Parts

end Render

end Stencil
