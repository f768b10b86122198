import Stencil.Proofs.Loading

/-!
# Following layouts

A page that extends a layout goes on with it, and so on until a template extends nothing. Each
hop is checked against the chain so far and against the limit before the next template is
loaded, and no expression is evaluated on the way.
-/

namespace Stencil

variable {α : Type}

namespace Action

/-- What two boundaries have reported no third one reports again. -/
theorem reported_reported (b b' b'' : Boundary) (s : Stop) :
    reported b (reported b' (reported b'' s)) = reported b' (reported b'' s) := by
  rcases s with (e | f) | _
  · rfl
  · cases hf : f.inWriting? with
    | none =>
      rw [reported_told b'' hf]
      rfl
    | some g =>
      rw [reported_untold b'' hf, reported_told b' (Fault.inWriting?_inWriting hf)]
      rfl
  · rfl

/-- An action that comes down to one inside a further boundary reports what that has left. -/
theorem within_eq {b b₁ b' : Boundary} {x x' : Action α} {w w' : World}
    (h : x.run { w with boundary := some b } = (within b' x').run w')
    (hw' : w'.boundary = some b₁) :
    (within b x).run w = (within b₁ (within b' x')).run { w' with boundary := w.boundary } := by
  cases hx' : x'.run { w' with boundary := some b' } with
  | ok a w'' =>
    have hx := h.trans (within_of_ok hx')
    have hinner : (within b' x').run { w' with boundary := some b₁ } = .ok a _ := within_of_ok hx'
    rw [within_of_ok hx, within_of_ok (w := { w' with boundary := w.boundary }) hinner]
  | error s w'' =>
    have hx := h.trans (within_of_error hx')
    have hinner : (within b' x').run { w' with boundary := some b₁ } = .error _ _ :=
      within_of_error hx'
    rw [within_of_error hx, within_of_error (w := { w' with boundary := w.boundary }) hinner, hw']
    rfl

/-- Inside of two further boundaries a boundary has nothing to report. -/
theorem within_within_within (b b' b'' : Boundary) (x : Action α) (w : World) :
    (within b (within b' (within b'' x))).run w = (within b' (within b'' x)).run w := by
  cases hx : x.run { w with boundary := some b'' } with
  | ok a w' =>
    have h₁ (o : Option Boundary) : (within b'' x).run { w with boundary := o } = .ok a _ :=
      within_of_ok hx
    have h₂ (o : Option Boundary) : (within b' (within b'' x)).run { w with boundary := o } =
        .ok a _ := within_of_ok (h₁ _)
    exact (within_of_ok (h₂ _)).trans (h₂ w.boundary).symm
  | error s w' =>
    have h₁ (o : Option Boundary) : (within b'' x).run { w with boundary := o } = .error _ _ :=
      within_of_error hx
    have h₂ (o : Option Boundary) : (within b' (within b'' x)).run { w with boundary := o } =
        .error _ _ := within_of_error (h₁ _)
    refine (within_of_error (h₂ _)).trans ((h₂ w.boundary).symm ▸ ?_)
    exact congrArg (EStateM.Result.error · _) (reported_reported ..)

/-- What ends well inside of two boundaries ends well inside of the inner one. -/
theorem ok_of_within {b b' : Boundary} {x : Action α} {w w' : World} {a : α}
    (h : (within b (within b' x)).run w = .ok a w') : (within b' x).run w = .ok a w' := by
  cases hx : x.run { w with boundary := some b' } with
  | ok a' w₁ =>
    have hinner : (within b' x).run { w with boundary := some b } = .ok a' _ := within_of_ok hx
    rw [within_of_ok hinner] at h
    rw [within_of_ok hx]
    exact h
  | error s w₁ =>
    have hinner : (within b' x).run { w with boundary := some b } = .error _ _ :=
      within_of_error hx
    rw [within_of_error hinner] at h
    cases h

/-- Actions that take the same course inside of a boundary do so around it. -/
theorem within_congr {b : Boundary} {x x' : Action α} {w : World} {notices notices' : Array Notice}
    (h : x.run { w with boundary := some b, notices } =
      x'.run { w with boundary := some b, notices := notices' }) :
    (within b x).run { w with notices } = (within b x').run { w with notices := notices' } := by
  change within b x _ = within b x' _
  unfold within
  rw [h]

theorem within_error {b b' : Boundary} {x : Action α} {s : Stop} {w w' : World}
    (h : x.run { w with boundary := some b } = .error s w') (hb : w'.boundary = some b') :
    (within b x).run w = .error (reported b' s) { w' with boundary := w.boundary } := by
  rw [within_of_error h, hb]
  rfl

end Action

namespace Render

variable (env : Environment) (ev : Evaluator) {n calls : Nat} {t t' : Template}
  {position : Text.Position} {layout : String} {own : List Section} {b : Boundary}
  (again : Part → Ref → Sections → Action Output) (data : Ref) (sections : Sections) (w : World)

theorem extendFrom_cycle (hc : layout ∈ b.chain) :
    (extendFrom env b calls again layout data sections).run w =
      .error (.failed (.template (.cycle (b.chain ++ [layout])))) w := by
  have hcheck : b.checkCycle layout = .error (.cycle (b.chain ++ [layout])) := by
    unfold Boundary.checkCycle
    rw [if_pos (by simpa using hc)]
  unfold extendFrom
  rw [hcheck]
  rfl

theorem extendFrom_tooDeep (hc : layout ∉ b.chain) (hd : b.limit ≤ b.depth) :
    (extendFrom env b calls again layout data sections).run w =
      .error (.failed (.template (.tooDeep layout b.limit b.sites))) w := by
  have hcheck : b.checkCycle layout = .ok () := by
    unfold Boundary.checkCycle
    rw [if_neg (by simpa using hc)]
  have hdepth : b.checkDepth layout = .error (.tooDeep layout b.limit b.sites) := if_pos hd
  unfold extendFrom
  rw [hcheck, hdepth]
  rfl

/-- A hop that passes both checks is decided by loading the layout. -/
theorem extendFrom_load (hc : layout ∉ b.chain) (hd : b.depth < b.limit) :
    extendFrom env b calls again layout data sections = (do
      let t ← env.loadUnder calls layout
      Action.within (b.child layout t.filename (some t.source.text) true)
        (again (.whole t) data sections)) := by
  have hcheck : b.checkCycle layout = .ok () := by
    unfold Boundary.checkCycle
    rw [if_neg (by simpa using hc)]
  have hdepth : b.checkDepth layout = .ok () := if_neg (Int.not_le.mpr hd)
  unfold extendFrom
  rw [hcheck, hdepth]
  rfl

theorem extendFrom_refused (hc : layout ∉ b.chain) (hd : b.depth < b.limit) {f : Failure}
    (hl : env.Gives layout (.error f)) :
    ∃ notices, ∀ again data sections, (extendFrom env b calls again layout data sections).run w =
      .error (.failed f) { w with notices } := by
  obtain ⟨notices, hload⟩ := hl calls w
  refine ⟨notices, fun again data sections => ?_⟩
  rw [extendFrom_load env again data sections hc hd, EStateM.run_bind, hload]
  rfl

theorem extendFrom_loaded (hc : layout ∉ b.chain) (hd : b.depth < b.limit)
    (hl : env.Gives layout (.ok t')) :
    ∃ notices, ∀ again data sections, (extendFrom env b calls again layout data sections).run w =
      (Action.within (b.child layout t'.filename (some t'.source.text) true)
        (again (.whole t') data sections)).run { w with notices } := by
  obtain ⟨notices, hload⟩ := hl calls w
  refine ⟨notices, fun again data sections => ?_⟩
  rw [extendFrom_load env again data sections hc hd, EStateM.run_bind, hload]
  rfl

/-- An extending template only marks its line before it goes on with the layout. -/
theorem part_extension_run (ht : t.tree = .extension position layout own) :
    (part env ev (n + 1) (.whole t) data sections).run { w with boundary := some b } =
      (extendFrom env (b.atLine position.line) (env.host.calls n) (part env ev n) layout data
        (sections.register t)).run { w with boundary := some (b.atLine position.line) } := by
  rw [part_extension env ev n ht]
  rfl

section Hop

variable (ht : t.tree = .extension position layout own)
include ht

theorem hop_cycle (hc : layout ∈ b.chain) :
    (Action.within b (part env ev (n + 1) (.whole t) data sections)).run w =
      .error (.failed (.template (.cycle (b.chain ++ [layout])))) w :=
  Action.within_error ((part_extension_run env ev data sections w ht).trans
    (extendFrom_cycle env _ _ _ _ hc)) rfl

theorem hop_tooDeep (hc : layout ∉ b.chain) (hd : b.limit ≤ b.depth) :
    (Action.within b (part env ev (n + 1) (.whole t) data sections)).run w =
      .error (.failed (.template
        (.tooDeep layout b.limit (b.atLine position.line).sites))) w :=
  Action.within_error ((part_extension_run env ev data sections w ht).trans
    (extendFrom_tooDeep env _ _ _ _ hc hd)) rfl

theorem hop_refused (hc : layout ∉ b.chain) (hd : b.depth < b.limit) {f : Failure}
    (hl : env.Gives layout (.error f)) :
    ∃ notices, ∀ ev data sections,
      (Action.within b (part env ev (n + 1) (.whole t) data sections)).run w =
        .error (Action.reported (b.atLine position.line) (.failed f)) { w with notices } := by
  obtain ⟨notices, hload⟩ := extendFrom_refused env (b := b.atLine position.line)
    { w with boundary := some (b.atLine position.line) } hc hd hl
  exact ⟨notices, fun ev data sections => Action.within_error
    ((part_extension_run env ev data sections w ht).trans (hload _ _ _)) rfl⟩

theorem hop_loaded (hc : layout ∉ b.chain) (hd : b.depth < b.limit)
    (hl : env.Gives layout (.ok t')) :
    ∃ notices, ∀ ev data sections,
      (Action.within b (part env ev (n + 1) (.whole t) data sections)).run w =
        (Action.within (b.atLine position.line) (Action.within
          ((b.atLine position.line).child layout t'.filename (some t'.source.text) true)
          (part env ev n (.whole t') data (sections.register t)))).run { w with notices } := by
  obtain ⟨notices, hload⟩ := extendFrom_loaded env (b := b.atLine position.line)
    { w with boundary := some (b.atLine position.line) } hc hd hl
  exact ⟨notices, fun ev data sections => Action.within_eq
    ((part_extension_run env ev data sections w ht).trans (hload _ _ _)) rfl⟩

end Hop

end Render

/-- The hops of a chain from `t`, reached by the names `ns`, to `u`, reached by `ms`. Each leads
to a layout that is new to the chain, that the limit allows and that can be loaded; the sections
on the way are handed on. -/
inductive Hops (content : String → Except Failure Template) (limit : Int) :
    List String → Template → Sections → List String → Template → Sections → Prop
  | refl (ns : List String) (t : Template) (s : Sections) : Hops content limit ns t s ns t s
  | step {ns ms : List String} {t t' u : Template} {s s' : Sections} {layout : String}
      (hlayout : t.tree.layout? = some layout) (hnew : layout ∉ ns)
      (hdepth : (ns.length : Int) - 1 < limit) (hload : content layout = .ok t')
      (rest : Hops content limit (ns ++ [layout]) t' (s.register t) ms u s') :
      Hops content limit ns t s ms u s'

def World.withData (w : World) (d : RenderData) : World :=
  { w with heap := { w.heap with data := w.heap.data.push d } }

/-- How a chain that led to `u` by the names `ms` may end without a base to render. -/
inductive Blocked (env : Environment) (content : String → Except Failure Template)
    (ms : List String) (u : Template) : Stop → Prop
  | cycle {layout : String} (hlayout : u.tree.layout? = some layout) (hseen : layout ∈ ms) :
      Blocked env content ms u (.failed (.template (.cycle (ms ++ [layout]))))
  | tooDeep {layout : String} (sites : List CallSite) (hlayout : u.tree.layout? = some layout)
      (hnew : layout ∉ ms) (hdepth : env.limit ≤ (ms.length : Int) - 1) :
      Blocked env content ms u (.failed (.template (.tooDeep layout env.limit sites)))
  | missing {layout message : String} (hlayout : u.tree.layout? = some layout)
      (hnew : layout ∉ ms) (hdepth : (ms.length : Int) - 1 < env.limit)
      (hload : content layout = .error (.template (.notFound message (some layout)))) :
      Blocked env content ms u (.failed (.template (.notFound message (some layout))))
  | malformed {layout : String} {e : SyntaxError} (hlayout : u.tree.layout? = some layout)
      (hnew : layout ∉ ms) (hdepth : (ms.length : Int) - 1 < env.limit)
      (hload : content layout = .error (.template (.malformed e))) (he : e.name = some layout) :
      Blocked env content ms u (.failed (.template (.malformed e)))
  /-- A fault of the loader is reported at the line that extends. -/
  | fault {layout : String} {position : Text.Position} {own : List Section} {f : Fault}
      {b : Boundary} (htree : u.tree = .extension position layout own)
      (hnew : layout ∉ ms) (hdepth : (ms.length : Int) - 1 < env.limit)
      (hload : content layout = .error (.fault f))
      (hb : b.template = u.name ∧ b.line = position.line) :
      Blocked env content ms u (.failed (.template (b.failure f)))
  /-- So many hops are more calls than the host allows for. -/
  | overrun {headline : String} {r : RenderFailure} {f : Fault} (hroom : env.host.room < ms.length)
      (hcause : r.cause = some f) (hf : f.kind = .recursion) :
      Blocked env content ms u (.failed (.template (.failed headline none r)))

/-- The boundary in which a template is rendered that the names `ns` lead to. -/
structure AtHop (env : Environment) (ns : List String) (t : Template) (b : Boundary) : Prop where
  chain : b.chain = ns
  depth : b.depth = (ns.length : Int) - 1
  limit : b.limit = env.limit
  template : b.template = t.name

theorem AtHop.child {env : Environment} {ns : List String} {t t' : Template} {b : Boundary}
    (h : AtHop env ns t b) {layout : String} (ht' : t'.name = some layout) (line : Int)
    (filename source : Option String) :
    AtHop env (ns ++ [layout]) t' ((b.atLine line).child layout filename source true) where
  chain := congrArg (· ++ [layout]) h.chain
  depth := by
    have hdepth := h.depth
    simp only [Boundary.child, Boundary.atLine, List.length_append, List.length_singleton]
    omega
  limit := h.limit
  template := ht'.symm

/-- The boundary around that of the last of the names `ms`, if more than the names `ns` of the
start lead there. -/
inductive Outer (ns ms : List String) : Option Boundary → Prop
  | none (h : ms = ns) : Outer ns ms none
  | some {b : Boundary} (h : b.chain = ms.dropLast) : Outer ns ms (some b)

def Action.insideOf : Option Boundary → Action α → Action α
  | none, x => x
  | some b, x => within b x

/-- Run in `w`, an action goes on from `start` by rendering the base `u` with the sections `s`,
in the boundary that the names `ms` lead to; what that boundary cannot tell is told by the one
around it. -/
def EndsAtBase (env : Environment) (ns ms : List String) (u : Template) (s : Sections) (data : Ref)
    (x : Evaluator → Action Output) (w start : World) : Prop :=
  ∃ body b outer k notices, u.tree = .page body ∧ AtHop env ms u b ∧ Outer ns ms outer ∧
    k + ms.length = env.host.room ∧ ∀ ev,
    (x ev).run w = (Action.insideOf outer (Action.within b (Render.body (Render.around env ev
      (env.host.calls k) (Render.part env ev k) data s) u "render" data body))).run
        { start with notices }

/-- Run in `w`, an action is blocked and leaves `start` but for notices, whatever evaluates
expressions. -/
def EndsBlocked (env : Environment) (content : String → Except Failure Template)
    (ms : List String) (u : Template) (x : Evaluator → Action Output) (w start : World) : Prop :=
  ∃ stop notices, Blocked env content ms u stop ∧ ∀ ev,
    (x ev).run w = .error stop { start with notices }

section Transport

variable {env : Environment} {content : String → Except Failure Template} {ns ms : List String}
  {u : Template} {s : Sections} {data : Ref} {x y : Evaluator → Action Output}
  {w start : World} {notices : Array Notice}

theorem EndsAtBase.of_run
    (h : EndsAtBase env ns ms u s data y { start with notices } { start with notices })
    (hxy : ∀ ev, (x ev).run w = (y ev).run { start with notices }) :
    EndsAtBase env ns ms u s data x w start := by
  obtain ⟨body, b, outer, k, notices', hbody, hb, houter, hk, hrun⟩ := h
  exact ⟨body, b, outer, k, notices', hbody, hb, houter, hk, fun ev => (hxy ev).trans (hrun ev)⟩

/-- What ends at a base inside of the boundary of the hop before ends there from that hop on. -/
theorem EndsAtBase.hop {layout : String} {b : Boundary}
    (h : EndsAtBase env (ns ++ [layout]) ms u s data y { w with boundary := some b, notices }
      { w with boundary := some b, notices }) (hb : b.chain = ns)
    (hxy : ∀ ev, (x ev).run w = (Action.within b (y ev)).run { w with notices }) :
    EndsAtBase env ns ms u s data x w w := by
  obtain ⟨body, b', outer, k, notices', hbody, hb', houter, hk, hrun⟩ := h
  have hinside (ev : Evaluator) := (hxy ev).trans (Action.within_congr (hrun ev))
  cases houter with
  | none hms =>
    have hchain : b.chain = ms.dropLast := by rw [hms, List.dropLast_concat, hb]
    exact ⟨body, b', some b, k, notices', hbody, hb', .some hchain, hk, hinside⟩
  | some hchain =>
    exact ⟨body, b', _, k, notices', hbody, hb', .some hchain, hk, fun ev =>
      (hinside ev).trans (Action.within_within_within ..)⟩

theorem EndsBlocked.of_run
    (h : EndsBlocked env content ms u y { start with notices } { start with notices })
    (hxy : ∀ ev, (x ev).run w = (y ev).run { start with notices }) :
    EndsBlocked env content ms u x w start := by
  obtain ⟨stop, notices', hstop, hrun⟩ := h
  exact ⟨stop, notices', hstop, fun ev => (hxy ev).trans (hrun ev)⟩

theorem Blocked.reported {stop : Stop} (h : Blocked env content ms u stop) (b : Boundary) :
    Action.reported b stop = stop := by
  cases h <;> rfl

theorem EndsBlocked.hop {b : Boundary}
    (h : EndsBlocked env content ms u y { w with boundary := some b, notices }
      { w with boundary := some b, notices })
    (hxy : ∀ ev, (x ev).run w = (Action.within b (y ev)).run { w with notices }) :
    EndsBlocked env content ms u x w w := by
  obtain ⟨stop, notices', hstop, hrun⟩ := h
  refine ⟨stop, notices', hstop, fun ev => ?_⟩
  rw [hxy ev, Action.within_of_error (hrun ev), hstop.reported]

end Transport

namespace Render

variable {env : Environment} {content : String → Except Failure Template}

/-- Where a chain of layouts ends: at a base, which is rendered with the sections of the chain,
or blocked, whatever evaluates expressions. -/
theorem hops_outcome (hc : env.Holds content) (data : Ref) (n : Nat) :
    ∀ (ns : List String) (t : Template) (s : Sections) (b : Boundary) (w : World),
      AtHop env ns t b → (ns.length : Int) - 1 ≤ env.limit →
      n + ns.length = env.host.room + 1 →
      ∃ ms u s', Hops content env.limit ns t s ms u s' ∧ (ms.length : Int) - 1 ≤ env.limit ∧
        (EndsAtBase env ns ms u s' data
            (fun ev => Action.within b (part env ev n (.whole t) data s)) w w ∨
          EndsBlocked env content ms u
            (fun ev => Action.within b (part env ev n (.whole t) data s)) w w) := by
  induction n with
  | zero =>
    intro ns t s b w hb hlimit hn
    have hroom : env.host.room < ns.length := by omega
    exact ⟨ns, t, s, .refl .., hlimit, .inr ⟨_, w.notices, .overrun hroom rfl rfl, fun ev => rfl⟩⟩
  | succ n ih =>
    intro ns t s b w hb hlimit hn
    cases ht : t.tree with
    | page body =>
      refine ⟨ns, t, s, .refl .., hlimit,
        .inl ⟨body, b, none, n, w.notices, ht, hb, .none rfl, by omega, fun ev => ?_⟩⟩
      simp only [part_page env ev n ht]
      rfl
    | extension position layout own =>
      have hlayout : t.tree.layout? = some layout := by rw [ht]; rfl
      by_cases hseen : layout ∈ ns
      · refine ⟨ns, t, s, .refl .., hlimit,
          .inr ⟨_, w.notices, .cycle hlayout hseen, fun ev => ?_⟩⟩
        rw [← hb.chain] at hseen
        rw [hop_cycle env ev data s w ht hseen, hb.chain]
      by_cases hdepth : (ns.length : Int) - 1 < env.limit
      · have hnew : layout ∉ b.chain := by rwa [hb.chain]
        have hlt : b.depth < b.limit := by rwa [hb.depth, hb.limit]
        cases hload : content layout with
        | ok t' =>
          have hgives : env.Gives layout (.ok t') := hload ▸ hc.gives layout
          obtain ⟨notices, hrun⟩ := hop_loaded env (n := n) w ht hnew hlt hgives
          have hlength : (ns ++ [layout]).length = ns.length + 1 := by simp
          obtain ⟨ms, u, s', hops, hms, hend⟩ := ih (ns ++ [layout]) t' (s.register t) _
            { w with boundary := some (b.atLine position.line), notices } (hb.child hgives.read.1 position.line t'.filename
              (some t'.source.text)) (by omega) (by omega)
          refine ⟨ms, u, s', .step hlayout hseen hdepth hload hops, hms, ?_⟩
          exact hend.imp (·.hop hb.chain fun ev => hrun ev data s)
            (·.hop fun ev => hrun ev data s)
        | error f =>
          have hgives : env.Gives layout (.error f) := hload ▸ hc.gives layout
          obtain ⟨notices, hrun⟩ := hop_refused env (n := n) w ht hnew hlt hgives
          refine ⟨ns, t, s, .refl .., hlimit, .inr ⟨_, notices, ?_, fun ev => hrun ev data s⟩⟩
          cases hc.refusal layout f hload with
          | missing message => exact .missing hlayout hseen hdepth hload
          | malformed he => exact .malformed hlayout hseen hdepth hload he
          | fault hf =>
            rw [Action.reported_told _ hf]
            exact .fault ht hseen hdepth hload ⟨hb.template, rfl⟩
      · have hnew : layout ∉ b.chain := by rwa [hb.chain]
        have hle : b.limit ≤ b.depth := by
          rw [hb.depth, hb.limit]
          omega
        refine ⟨ns, t, s, .refl .., hlimit,
          .inr ⟨_, w.notices, .tooDeep (b.atLine position.line).sites hlayout hseen (by omega),
            fun ev => ?_⟩⟩
        rw [hop_tooDeep env ev data s w ht hnew hle, hb.limit]

theorem renderData_run {data : Value} {more : Bindings} {d : RenderData} {w : World}
    (h : (Template.renderData env data more).run w = .ok d w) (notices : Array Notice) :
    (Template.renderData env data more).run { w with notices } = .ok d { w with notices } := by
  unfold Template.renderData at h ⊢
  split at h
  · cases h
    rfl
  · cases h
    rfl
  · cases h

end Render

/-- The outcome of a render by name is decided where the chain of layouts ends, which is within
the limit. At a base, the base is rendered with the sections of the chain. Otherwise the render
is blocked: by a layout seen before, by the limit, or because the next layout cannot be loaded.
Then nothing was evaluated, for the outcome is the same whatever evaluates expressions. -/
theorem render_decided_by_hops (env : Environment) {content : String → Except Failure Template}
    (hc : env.Holds content) (hlimit : 0 ≤ env.limit) {name : String} (hname : name ≠ "")
    {t : Template} (ht : content name = .ok t) {data : Value} {more : Bindings} {d : RenderData}
    {w : World} (hd : (Template.renderData env data more).run w = .ok d w) :
    ∃ ms u s, Hops content env.limit [name] t [] ms u s ∧ (ms.length : Int) - 1 ≤ env.limit ∧
      (EndsAtBase env [name] ms u s w.heap.data.size (fun ev => env.renderBy ev name data more) w
          (w.withData d) ∨
        EndsBlocked env content ms u (fun ev => env.renderBy ev name data more) w
          (w.withData d)) := by
  have hgives : env.Gives name (.ok t) := ht ▸ hc.gives name
  obtain ⟨notices, hload⟩ := hgives 0 w
  have htname := hgives.read.1
  let b : Boundary := .page t.name t.filename (some t.source.text) env.limit
  have hb : AtHop env [name] t b :=
    ⟨by simp [b, Boundary.page, nonEmpty, htname, hname], rfl, rfl, rfl⟩
  have hrender : ∀ ev, (env.renderBy ev name data more).run w =
      (Action.within b (Render.part env ev env.host.room (.whole t)
        w.heap.data.size [])).run { w.withData d with notices } := by
    intro ev
    unfold Environment.renderBy Environment.load
    rw [EStateM.run_bind, hload]
    change (t.renderBy ev env data more).run { w with notices } = _
    unfold Template.renderBy
    rw [EStateM.run_bind, Render.renderData_run hd notices]
    rfl
  obtain ⟨ms, u, s, hops, hms, hend⟩ := Render.hops_outcome hc w.heap.data.size
    env.host.room [name] t [] b { w.withData d with notices } hb hlimit rfl
  exact ⟨ms, u, s, hops, hms, hend.imp (·.of_run hrender) (·.of_run hrender)⟩

/-- A page with a layout, rendered without data. -/
theorem layered_page_decided_by_hops :
    let env := Environment.ofTable [("a", "@extends('b')"), ("b", "x")]
    ∃ content t d, env.Holds content ∧ 0 ≤ env.limit ∧ "a" ≠ "" ∧ content "a" = .ok t ∧
      (Template.renderData env .none []).run World.fresh = .ok d World.fresh ∧
      ∃ ms u s, Hops content env.limit ["a"] t [] ms u s ∧ (ms.length : Int) - 1 ≤ env.limit ∧
        (EndsAtBase env ["a"] ms u s World.fresh.heap.data.size
            (fun ev => env.renderBy ev "a" .none []) World.fresh (World.fresh.withData d) ∨
          EndsBlocked env content ms u (fun ev => env.renderBy ev "a" .none [])
            World.fresh (World.fresh.withData d)) := by
  intro env
  obtain ⟨content, hc⟩ := Environment.ofTable_holds [("a", "@extends('b')"), ("b", "x")]
  have hlimit : 0 ≤ env.limit := by decide
  have hname : "a" ≠ "" := by decide
  have hloads : ((env.load "a").value? World.fresh).isSome = true := by decide +kernel
  obtain ⟨t, ht⟩ := Option.isSome_iff_exists.mp hloads
  have hcontent := hc.content_of_value? ht
  have hd : (Template.renderData env .none []).run World.fresh = .ok ⟨[], []⟩ World.fresh := rfl
  exact ⟨content, t, _, hc, hlimit, hname, hcontent, hd,
    render_decided_by_hops env hc hlimit hname hcontent hd⟩

/-- Templates from a function that answers with a number for a layout. -/
def numberedLayout : Environment :=
  ⟨some (.lookup [("a", .str "@extends('b')"), ("b", .int 42)]), [], [], Boundary.usualLimit,
    false, .empty, .even⟩

def numberForLayout : Fault :=
  .type "Loader function returned int for 'b'; expected str, (source, filename) or None"

/-- Three templates, on a host that has no room for the last of them. -/
def narrowLayouts : Environment :=
  { Environment.ofTable [("a", "@extends('b')"), ("b", "@extends('c')"), ("c", "x")] with
    host := { Host.even with nested := 1 } }

/-- A layout that cannot be loaded need not be one that was not found, and a chain that comes to a
base within the limit need not be rendered. -/
theorem numbered_layout_not_missing :
    ((numberedLayout.load "a").value? World.fresh).bind (·.tree.layout?) = some "b" ∧
      (numberedLayout.load "b").stop? World.fresh = some (.failed (.fault numberForLayout)) ∧
      (numberedLayout.render "a" .none []).stop? World.fresh =
        some (.failed (.template (.failed numberForLayout.headline none
          ⟨some "a", some 1, some numberForLayout, some ⟨[(1, "@extends('b')")], 1, none⟩,
            []⟩))) ∧
      ((narrowLayouts.load "c").value? World.fresh).isSome = true ∧ 2 ≤ narrowLayouts.limit ∧
      (narrowLayouts.render "a" .none []).stop? World.fresh =
        some (.failed (.template (.failed Fault.tooRecursive.headline none
          ⟨some "c", none, some .tooRecursive, none, [⟨"a", 1⟩, ⟨"b", 1⟩]⟩))) := by
  decide +kernel

end Stencil
