import Stencil.Render

/-!
# Renders at different depths

An action run in two worlds with the same heap takes the same course in both, whatever
boundaries they are in, as long as it meets no bound on nesting. `Follows` compares two outcomes
in this sense and `Parallel` two actions. The boundaries of the two worlds are kept in a relation
`B`, which is free for loading a template. For bodies it is `Deeper`: the first world is nested at
least as deep as the second, so that a bound is met there first.
-/

namespace Stencil

open Render (Reach)

variable {α β : Type}

namespace Stop

def missing? : Stop → Option (String × Option String)
  | .failed (.template (.notFound message name)) => some (message, name)
  | _ => none

/-- Ended by a bound on nesting, of templates or of calls. -/
def HitsLimit : Stop → Prop
  | .failed (.fault f) => f = .tooRecursive
  | .failed (.template (.tooDeep ..)) => True
  | .failed (.template (.failed _ _ trace)) => trace.cause = some .tooRecursive
  | _ => False

theorem missing?_of_hitsLimit {s : Stop} (h : s.HitsLimit) : s.missing? = none := by
  unfold HitsLimit at h
  split at h
  · rfl
  · rfl
  · rfl
  · exact h.elim

theorem eq_of_missing? {s : Stop} {m : String × Option String} (h : s.missing? = some m) :
    s = .failed (.template (.notFound m.1 m.2)) := by
  unfold missing? at h
  split at h
  · cases h
    rfl
  · cases h

theorem missing?_reported (b : Boundary) (s : Stop) :
    (Action.reported b s).missing? = s.missing? := by
  rcases s with (e | f) | _
  · rfl
  · cases h : f.inWriting? with
    | none => rw [Action.reported_told b h]; rfl
    | some g => rw [Action.reported_untold b h]; rfl
  · rfl

theorem HitsLimit.reported {s : Stop} (h : s.HitsLimit) (b : Boundary) :
    (Action.reported b s).HitsLimit := by
  unfold Action.reported
  split
  · cases h
    rfl
  · exact h

end Stop

abbrev Coupling := Option Boundary → Option Boundary → Prop

/-- Worlds with the same heap in related boundaries. -/
structure Coupled (B : Coupling) (w w' : World) : Prop where
  heap : w.heap = w'.heap
  boundary : B w.boundary w'.boundary

/-- The second outcome is that of the first, unless the first met a bound on nesting. -/
inductive Follows (B : Coupling) :
    EStateM.Result Stop World α → EStateM.Result Stop World α → Prop
  | done {w w' : World} (a : α) (h : Coupled B w w') : Follows B (.ok a w) (.ok a w')
  | failed {s s' : Stop} {w w' : World} (hs : s.missing? = s'.missing?) (h : Coupled B w w') :
      Follows B (.error s w) (.error s' w')
  | limit {s : Stop} {w : World} {r : EStateM.Result Stop World α} (hs : s.HitsLimit) :
      Follows B (.error s w) r

def Parallel (B : Coupling) (x x' : Action α) : Prop :=
  ∀ w w' : World, Coupled B w w' → Follows B (x.run w) (x'.run w')

def Coupling.both (R : Boundary → Boundary → Prop) : Coupling :=
  fun o o' => ∃ b b', o = some b ∧ o' = some b' ∧ R b b'

def Coupling.KeepsLines (B : Coupling) : Prop :=
  ∀ (o o' : Option Boundary) (line : Nat), B o o' →
    B (o.map (·.atLine line)) (o'.map (·.atLine line))

/-- What surrounds a body in the first world reaches the same as in the second. -/
structure Alongside (B : Coupling) (reach reach' : Reach) : Prop where
  ev : reach.ev = reach'.ev
  calls : reach'.calls ≤ reach.calls
  yielding : ∀ name fallback, Parallel B (reach.yielding name fallback)
    (reach'.yielding name fallback)
  including : ∀ name v, Parallel B (reach.including name v) (reach'.including name v)

namespace Boundary

structure Deeper (limit : Int) (b b' : Boundary) : Prop where
  nonneg : 0 ≤ b'.depth
  depth : b'.depth ≤ b.depth
  limit_eq : b.limit = limit
  limit_eq' : b'.limit = limit

/-- Nested at least as deep in the same chain of layouts. -/
structure Along (limit : Int) (b b' : Boundary) : Prop extends Deeper limit b b' where
  chain : b.chain = b'.chain

variable {limit : Int} {b b' : Boundary}

theorem Deeper.child (h : Deeper limit b b') {name name' : String}
    {filename filename' source source' : Option String} {isLayout isLayout' : Bool} :
    Deeper limit (b.child name filename source isLayout)
      (b'.child name' filename' source' isLayout') :=
  ⟨Int.add_nonneg h.nonneg (by decide), Int.add_le_add_right h.depth 1, h.limit_eq, h.limit_eq'⟩

theorem deeper_keepsLines : (Coupling.both (Deeper limit)).KeepsLines := by
  rintro _ _ line ⟨b, b', rfl, rfl, h⟩
  exact ⟨_, _, rfl, rfl, ⟨h.nonneg, h.depth, h.limit_eq, h.limit_eq'⟩⟩

theorem along_keepsLines : (Coupling.both (Along limit)).KeepsLines := by
  rintro _ _ line ⟨b, b', rfl, rfl, h⟩
  exact ⟨_, _, rfl, rfl, ⟨⟨h.nonneg, h.depth, h.limit_eq, h.limit_eq'⟩, h.chain⟩⟩

end Boundary

namespace Parallel

variable {B : Coupling} {x x' : Action α}

theorem pure (a : α) : Parallel B (Pure.pure a) (Pure.pure a) := fun _ _ h => .done a h

theorem throw {s s' : Stop} (hs : s.missing? = s'.missing?) :
    Parallel B (MonadExcept.throw s : Action α) (MonadExcept.throw s') :=
  fun _ _ h => .failed hs h

theorem bind_of_run {f f' : α → Action β} (hx : Parallel B x x')
    (hf : ∀ a w w₁, x.run w = .ok a w₁ → Parallel B (f a) (f' a)) :
    Parallel B (x >>= f) (x' >>= f') := by
  intro w w' h
  have hr := hx w w' h
  rw [EStateM.run_bind, EStateM.run_bind]
  generalize hrun : x.run w = r, x'.run w' = r' at hr
  cases hr with
  | done a h => exact hf a _ _ hrun _ _ h
  | failed hs h => exact .failed hs h
  | limit hs => exact .limit hs

theorem bind {f f' : α → Action β} (hx : Parallel B x x')
    (hf : ∀ a, Parallel B (f a) (f' a)) : Parallel B (x >>= f) (x' >>= f') :=
  bind_of_run hx fun a _ _ _ => hf a

theorem heap : Parallel B Action.heap Action.heap := by
  intro w w' h
  have hr : Action.heap.run w' = .ok w.heap w' := by rw [h.heap]; rfl
  rw [hr]
  exact .done w.heap h

theorem ofExcept (e : Except Fault α) : Parallel B (Action.ofExcept e) (Action.ofExcept e) := by
  cases e with
  | ok a => exact pure a
  | error f => exact throw rfl

theorem notice (n : Notice) : Parallel B (Action.notice n) (Action.notice n) :=
  fun _ _ h => .done () ⟨h.heap, h.boundary⟩

theorem forM (f : β → Action PUnit) (hf : ∀ b, Parallel B (f b) (f b)) (l : List β) :
    Parallel B (l.forM f) (l.forM f) := by
  induction l with
  | nil => exact pure ()
  | cons b l ih => exact bind (hf b) fun _ => ih

/-- With fewer calls under way an evaluation meets the bound on them later. -/
theorem evaluateUnder {m n : Nat} (hmn : m ≤ n) (e : Eval α) :
    Parallel B (Action.evaluateUnder n e) (Action.evaluateUnder m e) := by
  intro w w' h
  change Follows B (Action.evaluateUnder n e w) (Action.evaluateUnder m e w')
  simp only [Action.evaluateUnder, ← h.heap]
  rcases e.run_of_le w.heap hmn with ⟨h', hover⟩ | heq
  · rw [hover]
    exact .limit rfl
  · rw [heq]
    cases e.run n w.heap with
    | ok a h' => exact .done a ⟨rfl, h.boundary⟩
    | error halt h' =>
      refine .failed ?_ ⟨rfl, h.boundary⟩
      cases halt with
      | undefinedName name available =>
        unfold Action.stopOf undefinedAt
        cases w.boundary <;> cases w'.boundary <;> rfl
      | fault f => rfl
      | outOfSteps => rfl

/-- Two actions tried with handlers that only take up a template that was not found. -/
theorem tryCatch {f f' : Stop → Action α} (hx : Parallel B x x')
    (hmiss : ∀ m n, Parallel B (f (.failed (.template (.notFound m n))))
      (f' (.failed (.template (.notFound m n)))))
    (hf : ∀ s : Stop, s.missing? = none → f s = MonadExcept.throw s)
    (hf' : ∀ s : Stop, s.missing? = none → f' s = MonadExcept.throw s) :
    Parallel B (MonadExcept.tryCatch x f) (MonadExcept.tryCatch x' f') := by
  intro w w' h
  have hr : Follows B (x w) (x' w') := hx w w' h
  change Follows B (EStateM.tryCatch x f w) (EStateM.tryCatch x' f' w')
  unfold EStateM.tryCatch
  generalize x w = r, x' w' = r' at hr
  cases hr with
  | done a h => exact .done a h
  | @failed s s' w w' hs h =>
    cases hm : s.missing? with
    | none =>
      have hm' : s'.missing? = none := by rw [← hs, hm]
      simp only [hf s hm, hf' s' hm']
      exact .failed hs h
    | some m =>
      have hm' : s'.missing? = some m := by rw [← hs, hm]
      rw [Stop.eq_of_missing? hm, Stop.eq_of_missing? hm']
      exact hmiss m.1 m.2 w w' h
  | @limit s w r hs =>
    simp only [hf s (Stop.missing?_of_hitsLimit hs)]
    exact .limit hs

theorem ofFailure (e : Except Failure α) :
    Parallel B (Loader.ofFailure e) (Loader.ofFailure e) := by
  cases e with
  | ok a => exact pure a
  | error f => exact throw rfl

theorem compile (s : Source) (lenient : Bool) :
    Parallel B (Template.compile s lenient) (Template.compile s lenient) := by
  unfold Template.compile
  cases s.tree with
  | error f => exact throw rfl
  | ok read =>
    refine bind (forM _ (fun _ => notice _) _) fun _ => ?_
    cases Template.checkFault? s read.1 with
    | some f => exact throw rfl
    | none => exact bind (notice _) fun _ => pure _

theorem compileSource (env : Environment) (s : Source) :
    Parallel B (env.compileSource s) (env.compileSource s) := by
  unfold Environment.compileSource
  cases env.host.breakdown? s with
  | some b => exact throw rfl
  | none => exact compile s env.lenient

theorem compileLoaded (env : Environment) (name : String) (l : Loaded) :
    Parallel B (env.compileLoaded name l) (env.compileLoaded name l) := by
  unfold Environment.compileLoaded
  split
  · exact compileSource env _
  · refine bind heap fun h => ?_
    by_cases hv : Value.truth h l.filename
    · simp only [hv, if_true]
      exact bind (compileSource env _) fun _ => throw rfl
    · simp only [hv]
      exact compileSource env _

mutual

theorem find {m n : Nat} (hmn : m ≤ n) (ev : Evaluator) (tree : FileTree) (name : String) :
    ∀ l : Loader, Parallel B (l.find ev n tree name) (l.find ev m tree name)
  | .files l => ofFailure _
  | .table templates => by
    unfold Loader.find
    cases templates.lookup name with
    | none => exact throw rfl
    | some source => exact pure _
  | .choice loaders => findFirst hmn ev tree name _ [] loaders
  | .lookup views => ofFailure _
  | .callback f => bind (evaluateUnder hmn _) fun _ => ofFailure _
  | .shouting => pure _
  | .custom v => evaluateUnder hmn _

theorem findFirst {m n : Nat} (hmn : m ≤ n) (ev : Evaluator) (tree : FileTree) (name : String)
    (count : Nat) : ∀ (misses : List String) (ls : List Loader),
      Parallel B (Loader.findFirst ev n tree name count misses ls)
        (Loader.findFirst ev m tree name count misses ls)
  | _, [] => throw rfl
  | misses, l :: ls => by
    refine tryCatch (find hmn ev tree name l) (fun m n => findFirst hmn ev tree name count _ ls)
      ?_ ?_ 
    · intro s hs
      split
      · cases hs
      · rfl
    · intro s hs
      split
      · cases hs
      · rfl

end

theorem loadUnder {m n : Nat} (hmn : m ≤ n) (env : Environment) (name : String) :
    Parallel B (env.loadUnder n name) (env.loadUnder m name) := by
  unfold Environment.loadUnder
  cases env.loader with
  | none => exact throw rfl
  | some l => exact bind (find hmn _ _ name l) fun found => compileLoaded env name found

section Bodies

variable {reach reach' : Reach}

theorem evaluate (hr : Alongside B reach reach') (e : Eval α) :
    Parallel B (reach.evaluate e) (reach'.evaluate e) :=
  evaluateUnder hr.calls e

theorem evalCode (hr : Alongside B reach reach') (scope : Scope) (code : Code) :
    Parallel B (Render.evalCode reach scope code) (Render.evalCode reach' scope code) := by
  unfold Render.evalCode
  rw [hr.ev]
  exact evaluate hr _

theorem textOf (v : Value) : Parallel B (Render.textOf v) (Render.textOf v) :=
  bind heap fun _ => ofExcept _

theorem test (hr : Alongside B reach reach') (scope : Scope) (code : Code) :
    Parallel B (Render.test reach scope code) (Render.test reach' scope code) :=
  bind (evalCode hr scope code) fun _ => bind heap fun _ => pure _

theorem eachItem (hr : Alongside B reach reach') (it : Value) {f f' : Value → Action Output}
    (hf : ∀ v, Parallel B (f v) (f' v)) (fuel : Nat) (out : Output) :
    Parallel B (Render.eachItem reach it f fuel out) (Render.eachItem reach' it f' fuel out) := by
  induction fuel generalizing out with
  | zero => exact throw rfl
  | succ fuel ih =>
    unfold Render.eachItem
    rw [hr.ev]
    refine bind (evaluate hr _) fun next => ?_
    cases next with
    | none => exact pure out
    | some v => exact bind (hf v) fun more => ih _

theorem whileTrue {again again' : Action Bool} {x x' : Action Output}
    (ha : Parallel B again again') (hx : Parallel B x x') (fuel : Nat) (out : Output) :
    Parallel B (Render.whileTrue again x fuel out) (Render.whileTrue again' x' fuel out) := by
  induction fuel generalizing out with
  | zero => exact throw rfl
  | succ fuel ih =>
    unfold Render.whileTrue
    refine bind ha fun go => ?_
    cases go with
    | false => exact pure out
    | true => exact bind hx fun more => ih _

theorem markLine (hB : B.KeepsLines) (line : Nat) :
    Parallel B (Action.markLine line) (Action.markLine line) :=
  fun _ _ h => .done () ⟨h.heap, hB _ _ line h.boundary⟩

mutual

theorem node (hB : B.KeepsLines) (hr : Alongside B reach reach') (scope : Scope) :
    ∀ x : Node, Parallel B (Render.node reach scope x) (Render.node reach' scope x)
  | .data _ _ => pure _
  | .output p code escaped =>
    bind (markLine hB _) fun _ => bind (evalCode hr scope code) fun v =>
      bind (textOf v) fun _ => pure _
  | .yielding p name default => bind (markLine hB _) fun _ => hr.yielding name default
  | .including p name data => by
    unfold Render.node
    refine bind (markLine hB _) fun _ => ?_
    cases data with
    | none => exact bind (evaluate hr _) fun v => hr.including name v
    | some code => exact bind (evalCode hr scope code) fun v => hr.including name v
  | .conditional p t body others otherwise => by
    unfold Render.node
    refine bind (markLine hB _) fun _ => bind (test hr scope t) fun holds => ?_
    cases holds with
    | true => exact nodes hB hr scope #[] body
    | false => exact branches hB hr scope (nodes hB hr scope #[] otherwise) others
  | .loop p _ target source body => by
    unfold Render.node
    rw [hr.ev]
    refine bind (markLine hB _) fun _ => bind (evalCode hr scope source) fun v =>
      bind (evaluate hr _) fun it => eachItem hr it (fun v => ?_) _ _
    exact bind (evaluate hr _) fun _ => nodes hB hr _ #[] body
  | .whileLoop p t body => by
    unfold Render.node
    refine bind (markLine hB _) fun _ => whileTrue (test hr scope t) ?_ _ _
    exact bind (nodes hB hr scope #[] body) fun out => bind (markLine hB _) fun _ => pure out

theorem nodes (hB : B.KeepsLines) (hr : Alongside B reach reach') (scope : Scope)
    (out : Output) : ∀ ns : List Node,
      Parallel B (Render.nodes reach scope out ns) (Render.nodes reach' scope out ns)
  | [] => pure out
  | x :: ns => bind (node hB hr scope x) fun _ => nodes hB hr scope _ ns

theorem branches (hB : B.KeepsLines) (hr : Alongside B reach reach') (scope : Scope)
    {x x' : Action Output} (hx : Parallel B x x') : ∀ bs : List (Code × List Node),
      Parallel B (Render.branches reach scope x bs) (Render.branches reach' scope x' bs)
  | [] => hx
  | b :: bs => by
    unfold Render.branches
    refine bind (branch hB hr scope b) fun taken => ?_
    cases taken with
    | none => exact branches hB hr scope hx bs
    | some out => exact pure out

theorem branch (hB : B.KeepsLines) (hr : Alongside B reach reach') (scope : Scope) :
    ∀ b : Code × List Node,
      Parallel B (Render.branch reach scope b) (Render.branch reach' scope b)
  | (t, body) => by
    unfold Render.branch
    refine bind (markLine hB _) fun _ => bind (test hr scope t) fun holds => ?_
    cases holds with
    | true => exact bind (nodes hB hr scope #[] body) fun _ => pure _
    | false => exact pure _

end

/-- A body takes the same course wherever it finds the same templates around it. -/
theorem body (hB : B.KeepsLines) (hr : Alongside B reach reach') (t : Template) (path : String)
    (data : Ref) (ns : List Node) :
    Parallel B (Render.body reach t path data ns) (Render.body reach' t path data ns) :=
  bind (evaluate hr _) fun _ => nodes hB hr _ #[] ns

end Bodies

theorem here {R : Boundary → Boundary → Prop} {f f' : Boundary → Action α}
    (hf : ∀ b b', R b b' → Parallel (.both R) (f b) (f' b')) :
    Parallel (.both R) (Action.here >>= f) (Action.here >>= f') := by
  intro w w' h
  obtain ⟨b, b', hb, hb', hR⟩ := h.boundary
  rw [Action.run_here_bind hb, Action.run_here_bind hb']
  exact hf b b' hR w w' h

/-- Inside boundaries of their own two actions may be related otherwise than around them. -/
theorem within {R : Coupling} {b b' : Boundary} (hR : R (some b) (some b'))
    (hx : Parallel R x x') : Parallel B (Action.within b x) (Action.within b' x') := by
  intro w w' h
  have hr := hx { w with boundary := some b } { w' with boundary := some b' } ⟨h.heap, hR⟩
  change Follows B (Action.within b x w) (Action.within b' x' w')
  unfold Action.within
  generalize x.run { w with boundary := some b } = r,
    x'.run { w' with boundary := some b' } = r' at hr
  cases hr with
  | done a h₁ => exact .done a ⟨h₁.heap, h.boundary⟩
  | failed hs h₁ =>
    refine .failed ?_ ⟨h₁.heap, h.boundary⟩
    rw [Stop.missing?_reported, Stop.missing?_reported, hs]
  | limit hs => exact .limit (hs.reported _)

theorem checkDepth {limit : Int} {b b' : Boundary} (hb : Boundary.Deeper limit b b')
    (name : String) : Parallel B (Action.orReject (b.checkDepth name))
      (Action.orReject (b'.checkDepth name)) := by
  have hdepth := hb.depth
  have hlimit := hb.limit_eq
  have hlimit' := hb.limit_eq'
  unfold Boundary.checkDepth
  by_cases hd : b.depth ≥ b.limit
  · rw [if_pos hd]
    exact fun _ _ _ => .limit trivial
  · rw [if_neg hd, if_neg (by omega)]
    exact pure ()

theorem checkCycle {b b' : Boundary} (hc : b.chain = b'.chain) (name : String) :
    Parallel B (Action.orReject (b.checkCycle name)) (Action.orReject (b'.checkCycle name)) := by
  unfold Boundary.checkCycle
  rw [hc]
  split
  · exact throw rfl
  · exact pure ()

end Parallel

namespace Render

open Boundary (Deeper Along)

variable {R : Boundary → Boundary → Prop} {limit : Int}
  {again again' : Part → Ref → Sections → Action Output}

theorem yieldTo_parallel (hR : ∀ b b', R b b' → Deeper limit b b') (data : Ref)
    (sections : Sections)
    (ha : ∀ s, Parallel (.both (Deeper limit)) (again (.sectionBody s) data sections)
      (again' (.sectionBody s) data sections)) (name fallback : String) :
    Parallel (.both R) (yieldTo again data sections name fallback)
      (yieldTo again' data sections name fallback) := by
  unfold yieldTo
  cases sections.lookup name with
  | none => exact Parallel.pure _
  | some s =>
    refine Parallel.here fun b b' hb => Parallel.within ?_ (ha s)
    obtain ⟨hnonneg, hdepth, hlimit, hlimit'⟩ := hR b b' hb
    exact ⟨_, _, rfl, rfl, ⟨hnonneg, hdepth, hlimit, hlimit'⟩⟩

theorem includePartial_parallel (hR : ∀ b b', R b b' → Deeper limit b b') (env : Environment)
    {m n : Nat} (hmn : m ≤ n)
    (ha : ∀ t data, Parallel (.both (Along limit)) (again (.whole t) data [])
      (again' (.whole t) data []))
    (name : String) (v : Value) :
    Parallel (.both R) (includePartial env n again name v)
      (includePartial env m again' name v) := by
  unfold includePartial
  split
  · refine Parallel.here fun b b' hb => ?_
    have hd := hR b b' hb
    unfold includeFrom
    refine Parallel.bind (Parallel.checkDepth hd name) fun _ => ?_
    refine Parallel.bind (Parallel.loadUnder hmn env name) fun t => ?_
    refine Parallel.bind Parallel.heap fun h => ?_
    refine Parallel.bind (Parallel.evaluateUnder hmn _) fun data => ?_
    exact Parallel.within ⟨_, _, rfl, rfl, ⟨hd.child, rfl⟩⟩ (ha t data)
  · exact Parallel.throw rfl

theorem extend_parallel (env : Environment) {m n : Nat} (hmn : m ≤ n)
    (ha : ∀ t data sections, Parallel (.both (Along limit)) (again (.whole t) data sections)
      (again' (.whole t) data sections)) (name : String) (data : Ref) (sections : Sections) :
    Parallel (.both (Along limit)) (extend env n again name data sections)
      (extend env m again' name data sections) := by
  refine Parallel.here fun b b' hb => ?_
  unfold extendFrom
  refine Parallel.bind (Parallel.checkCycle hb.chain name) fun _ => ?_
  refine Parallel.bind (Parallel.checkDepth hb.toDeeper name) fun _ => ?_
  refine Parallel.bind (Parallel.loadUnder hmn env name) fun t => ?_
  refine Parallel.within ⟨_, _, rfl, rfl, ⟨hb.toDeeper.child, ?_⟩⟩ (ha t data sections)
  exact congrArg (· ++ [name]) hb.chain

/-- Bodies are surrounded alike if sections and templates are reached alike. -/
theorem around_parallel (env : Environment) (ev : Evaluator) {m n : Nat} (hmn : m ≤ n)
    (hR : ∀ b b', R b b' → Deeper limit b b') (data : Ref) (sections : Sections)
    (hs : ∀ s, Parallel (.both (Deeper limit)) (again (.sectionBody s) data sections)
      (again' (.sectionBody s) data sections))
    (ht : ∀ t data, Parallel (.both (Along limit)) (again (.whole t) data [])
      (again' (.whole t) data [])) :
    Alongside (.both R) (around env ev n again data sections)
      (around env ev m again' data sections) :=
  ⟨rfl, hmn, yieldTo_parallel hR data sections hs, includePartial_parallel hR env hmn ht⟩

/-- A part that may be inside of fewer boundaries is stopped earlier or takes the same course.
For a section body it does not matter which chain of layouts it belongs to. -/
theorem part_parallel (env : Environment) (ev : Evaluator) (limit : Int) (n : Nat) :
    ∀ m, n ≤ m →
    (∀ s data sections,
      Parallel (.both (Deeper limit)) (part env ev n (.sectionBody s) data sections)
        (part env ev m (.sectionBody s) data sections)) ∧
    ∀ t data sections, Parallel (.both (Along limit)) (part env ev n (.whole t) data sections)
      (part env ev m (.whole t) data sections) := by
  induction n with
  | zero =>
    intro m _
    exact ⟨fun _ _ _ _ _ _ => .limit rfl, fun _ _ _ _ _ _ => .limit rfl⟩
  | succ n ih =>
    intro m hm
    obtain ⟨m, rfl⟩ : ∃ k, m = k + 1 := ⟨m - 1, by omega⟩
    have hnm : n ≤ m := by omega
    obtain ⟨ihSection, ihWhole⟩ := ih m hnm
    have hcalls := env.host.calls_le hnm
    constructor
    · intro s data sections
      exact Parallel.body Boundary.deeper_keepsLines
        (around_parallel env ev hcalls (fun _ _ h => h) data sections
          (fun s => ihSection s data sections) fun t data => ihWhole t data []) _ _ _ _
    · intro t data sections
      cases ht : t.tree with
      | page ns =>
        rw [part_page env ev n ht, part_page env ev m ht]
        exact Parallel.body Boundary.along_keepsLines
          (around_parallel env ev hcalls (fun _ _ h => h.toDeeper) data sections
            (fun s => ihSection s data sections) fun t data => ihWhole t data []) _ _ _ _
      | extension position layout own =>
        rw [part_extension env ev n ht, part_extension env ev m ht]
        exact Parallel.bind (Parallel.markLine Boundary.along_keepsLines _) fun _ =>
          extend_parallel env hcalls ihWhole layout data _

theorem page_parallel (env : Environment) (ev : Evaluator)
    (hR : ∀ b b', R b b' → Deeper limit b b') (hlines : (Coupling.both R).KeepsLines)
    {m n : Nat} (hnm : n ≤ m) {t : Template} {ns : List Node} (ht : t.tree = .page ns) (data : Ref)
    (sections : Sections) :
    Parallel (.both R) (part env ev n (.whole t) data sections)
      (part env ev m (.whole t) data sections) := by
  cases n with
  | zero => exact fun _ _ _ => .limit rfl
  | succ n =>
    obtain ⟨m, rfl⟩ : ∃ k, m = k + 1 := ⟨m - 1, by omega⟩
    have hnm : n ≤ m := by omega
    obtain ⟨hsection, hwhole⟩ := part_parallel env ev limit n m hnm
    rw [part_page env ev n ht, part_page env ev m ht]
    exact Parallel.body hlines (around_parallel env ev (env.host.calls_le hnm) hR data sections
      (fun s => hsection s data sections) fun t data => hwhole t data []) _ _ _ _

end Render

end Stencil
