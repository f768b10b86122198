import Stencil.Proofs.Emission
import Stencil.Proofs.MarkedLines
import Stencil.Proofs.Raising

/-!
# What a render enters

A place, an inclusion and `@extends` each make a boundary and render a part of some template
inside it. Up to there what they do is local; the rest is a render of its own, entered from this
moment. So the moments of a whole render are those of the page and of all that is entered from
them, and the place where a render stopped is found by going from one entry to the next.
-/

namespace Stencil

variable {α : Type}

/-- How a boundary is entered from another one. -/
inductive Hop
  /-- The section of this name fills a place. -/
  | filled (name : String)
  | included (name : String)
  | extended (name : String)
deriving DecidableEq, Repr

namespace Render

/-- What is rendered inside a boundary, with the data and the sections handed to it. No line of
the boundary is marked yet. -/
structure Entry where
  boundary : Boundary
  part : Part
  data : Ref
  sections : Sections
  unmarked : boundary.line = 0

/-- Renders an entry, where parts are rendered by `again`. -/
def Entry.render (again : Part → Ref → Sections → Action Output) (e : Entry) : Action Output :=
  Action.within e.boundary (again e.part e.data e.sections)

section Making

variable (env : Environment) (calls : Nat)

/-- What a place enters: the section of its name, if there is one. -/
def sectionEntry (data : Ref) (sections : Sections) (name : String) : Action (Option Entry) := do
  match sections.lookup name with
  | none => return none
  | some s =>
    let here ← Action.here
    return some
      ⟨here.ofSection s.owner.name s.owner.filename (some s.owner.source.text), .sectionBody s,
        data, sections, rfl⟩

/-- What an inclusion enters: the partial, with no data but what is given to it. -/
def partialEntry (name : String) (v : Value) : Action Entry := do
  match v with
  | .dict r =>
    let here ← Action.here
    Action.orReject (here.checkDepth name)
    let t ← env.loadUnder calls name
    let entries := (← Action.heap).dictEntries r
    let data ← Action.evaluateUnder calls (Eval.newData (dataWith env.baseData entries))
    return ⟨here.child name t.filename (some t.source.text) false, .whole t, data, [], rfl⟩
  | v => Action.fault (noMapping name v)

/-- What a page that extends a layout enters: the layout, with the sections. -/
def layoutEntry (data : Ref) (sections : Sections) (name : String) : Action Entry := do
  let here ← Action.here
  Action.orReject (here.checkCycle name)
  Action.orReject (here.checkDepth name)
  let t ← env.loadUnder calls name
  return ⟨here.child name t.filename (some t.source.text) true, .whole t, data, sections, rfl⟩

variable (again : Part → Ref → Sections → Action Output)

theorem yieldTo_eq (data : Ref) (sections : Sections) (name fallback : String) :
    yieldTo again data sections name fallback = (do
      match ← sectionEntry data sections name with
      | none => return #[.fallback fallback]
      | some e => e.render again) := by
  unfold yieldTo sectionEntry
  cases sections.lookup name with
  | none => rfl
  | some s => simp only [bind_assoc, pure_bind]; rfl

theorem includePartial_eq (name : String) (v : Value) :
    includePartial env calls again name v =
      partialEntry env calls name v >>= Entry.render again := by
  unfold includePartial partialEntry includeFrom
  cases v with
  | dict r => simp only [bind_assoc, pure_bind]; rfl
  | _ => rfl

theorem extend_eq (name : String) (data : Ref) (sections : Sections) :
    extend env calls again name data sections =
      layoutEntry env calls data sections name >>= Entry.render again := by
  unfold extend layoutEntry extendFrom
  simp only [bind_assoc, pure_bind]
  rfl

theorem sectionEntry_local (data : Ref) (sections : Sections) (name : String) :
    (sectionEntry data sections name).IsLocal := by
  unfold sectionEntry
  cases sections.lookup name with
  | none => exact .pure _
  | some s => exact .bind .here fun _ => .pure _

theorem checkCycle_local (b : Boundary) (name : String) :
    (Action.orReject (b.checkCycle name)).IsLocal := by
  refine .orReject fun err herr => ?_
  unfold Boundary.checkCycle at herr
  split at herr <;> cases herr
  rfl

theorem orReject_keeps (c : Except TemplateError Unit) : (Action.orReject c).Keeps := by
  cases c with
  | error err => rintro w a w' ⟨⟩
  | ok u => exact .pure u

theorem checkDepth_error {b : Boundary} {name : String} {w w' : World} {s : Stop}
    (h : (Action.orReject (b.checkDepth name)).run w = .error s w') :
    w' = w ∧ s.TooDeepIn b name := by
  unfold Boundary.checkDepth at h
  split at h
  · cases h
    exact ⟨rfl, .intro⟩
  · cases h

theorem checkDepth_stays {b : Boundary} {name : String} {f : Unit → Action α}
    (hf : ∀ u, (f u).IsLocal) {w w' : World} {s : Stop} (hw : w.boundary = some b)
    (h : (Action.orReject (b.checkDepth name) >>= f).run w = .error s w') :
    w'.boundary = w.boundary ∧ s.RaisedBefore name (some b) := by
  rcases Action.bind_error h with h | ⟨u, w₁, hcheck, h⟩
  · obtain ⟨rfl, hdeep⟩ := checkDepth_error h
    exact ⟨rfl, .inr ⟨b, rfl, hdeep⟩⟩
  · have hw₁ := orReject_keeps _ _ _ _ hcheck
    obtain ⟨hb, hs⟩ := (hf u).raises h
    rw [hw₁, hw] at hs
    exact ⟨hb.trans hw₁, .inl hs⟩

theorem partialEntry_stays (name : String) (v : Value) :
    (partialEntry env calls name v).Stays (Stop.RaisedBefore name) := by
  have hrest (here : Boundary) (r : Ref) (u : Unit) : Action.IsLocal (do
      let t ← env.loadUnder calls name
      let entries := (← Action.heap).dictEntries r
      let data ← Action.evaluateUnder calls (Eval.newData (dataWith env.baseData entries))
      return (⟨here.child name t.filename (some t.source.text) false, .whole t, data, [], rfl⟩ :
        Entry)) :=
    .bind (.loadUnder env calls name) fun t => .bind .heap fun heap =>
      .bind (.evaluateUnder _ _) fun data => .pure _
  unfold partialEntry
  split
  · exact .here_bind (fun b s => .inl)
      (fun b => (orReject_keeps _).bind fun u => (hrest b _ u).keeps)
      (checkDepth_stays (hrest _ _))
  · exact (Action.IsLocal.fault _).mono fun b s => .inl

theorem layoutEntry_stays (data : Ref) (sections : Sections) (name : String) :
    (layoutEntry env calls data sections name).Stays (Stop.RaisedBefore name) := by
  have hrest (here : Boundary) (u : Unit) : Action.IsLocal (do
      let t ← env.loadUnder calls name
      return (⟨here.child name t.filename (some t.source.text) true, .whole t, data, sections,
        rfl⟩ : Entry)) :=
    .bind (.loadUnder env calls name) fun t => .pure _
  unfold layoutEntry
  refine .here_bind (fun b s => .inl) (fun b => (orReject_keeps _).bind fun _ =>
    (orReject_keeps _).bind fun u => (hrest b u).keeps) fun {b w s w'} hw h => ?_
  rcases Action.bind_error h with h | ⟨u, w₁, hcheck, h⟩
  · obtain ⟨hb, hs⟩ := (checkCycle_local b name).raises h
    exact ⟨hb, .inl (hw ▸ hs)⟩
  · have hw₁ := orReject_keeps _ _ _ _ hcheck
    obtain ⟨hb, hs⟩ := checkDepth_stays (hrest b) (hw₁.trans hw) h
    exact ⟨hb.trans hw₁, hs⟩

theorem Entry.render_keeps (e : Entry) : (e.render again).Keeps := .within _ _

end Making

/-- The nodes of a part, with their template and what they are called in it; none for a page that
extends a layout. -/
def Part.body? : Part → Option (Template × String × List Node)
  | .sectionBody s => some (s.owner, "_section_" ++ toString s.index, s.body)
  | .whole t =>
    match t.tree with
    | .page ns => some (t, "render", ns)
    | .extension .. => none

section Acting

variable (env : Environment) (ev : Evaluator)

def Entry.reach (n : Nat) (e : Entry) : Reach :=
  around env ev (env.host.calls n) (Render.part env ev n) e.data e.sections

/-- What is done in the boundary itself, up to what is entered from it. -/
def Own.locally (reach : Reach) (data : Ref) (sections : Sections) : Own → Action (Option Entry)
  | .place name _ => sectionEntry data sections name
  | .inclusion scope name given => do
    let e ← partialEntry env reach.calls name (← givenData reach scope given)
    return some e
  | own => do
    own.perform reach
    return none

/-- Something is done in a boundary, at a line and in a state; it may enter another boundary. If
it is a loop that has made passes, `passed` are the lines of its body. -/
structure Act where
  line : Nat
  passed : List Nat
  world : World
  action : Action (Option Entry)

/-- Rendering an entry from `w`, where `n` more may be inside it, comes to an act. -/
inductive Entry.Acts (n : Nat) (e : Entry) (w : World) : Act → Prop
  | body {t : Template} {path : String} {ns : List Node} {frame : Ref} {w₁ : World} {m : Moment}
      (hp : e.part.body? = some (t, path, ns))
      (hf : ((e.reach env ev n).evaluate (Eval.newFrame [])).run
        { w with boundary := some e.boundary } = .ok frame w₁)
      (hm : Visits (e.reach env ev n) ⟨e.data, t.lenient, frame, [], [], path⟩ ns w₁ m) :
      e.Acts n w ⟨m.line, m.passed, m.world, m.own.locally env (e.reach env ev n) e.data e.sections⟩
  | layout {t : Template} {p : Text.Position} {name : String} {own : List Section}
      (hp : e.part = .whole t) (ht : t.tree = .extension p name own) :
      e.Acts n w
        ⟨p.line, [], World.marked { w with boundary := some e.boundary } p.line, do
          let e ← layoutEntry env (env.host.calls n) e.data (e.sections.register t) name
          return some e⟩

variable {env ev} {n : Nat} {e : Entry} {a : Act} {w w' : World} {s : Stop}

def Act.StopsBy (again : Part → Ref → Sections → Action Output) (a : Act) (s : Stop)
    (w' : World) : Prop :=
  a.action.run a.world = .error s w' ∨
    ∃ e w₁, a.action.run a.world = .ok (some e) w₁ ∧ (e.render again).run w₁ = .error s w'

theorem reach_returns (n : Nat) (e : Entry) : (e.reach env ev n).Returns where
  yielding name fallback := by
    change (yieldTo _ _ _ name fallback).Keeps
    rw [yieldTo_eq]
    refine (sectionEntry_local _ _ _).keeps.bind fun entered => ?_
    cases entered with
    | none => exact .pure _
    | some e => exact e.render_keeps _
  including name v := by
    change (includePartial _ _ _ name v).Keeps
    rw [includePartial_eq]
    exact (partialEntry_stays _ _ _ _).keeps.bind fun e => e.render_keeps _

theorem perform_stopped {own : Own} (h : (own.perform (e.reach env ev n)).run w = .error s w')
    (line : Nat) (passed : List Nat) :
    Act.StopsBy (part env ev n)
      ⟨line, passed, w, own.locally env (e.reach env ev n) e.data e.sections⟩ s w' := by
  cases own with
  | place name fallback =>
    rcases Action.bind_error h with h | ⟨_, _, _, h⟩
    · change (yieldTo _ _ _ name fallback).run w = _ at h
      rw [yieldTo_eq] at h
      rcases Action.bind_error h with h | ⟨entered, w₁, hentry, h⟩
      · exact .inl h
      · cases entered with
        | none => cases h
        | some e' => exact .inr ⟨e', w₁, hentry, h⟩
    · cases h
  | inclusion scope name given =>
    rcases Action.bind_error h with h | ⟨v, w₁, hv, h⟩
    · exact .inl (Action.bind_of_error h _)
    · rcases Action.bind_error h with h | ⟨_, _, _, h⟩
      · change (includePartial _ _ _ name v).run w₁ = _ at h
        rw [includePartial_eq] at h
        rcases Action.bind_error h with h | ⟨e', w₂, hentry, h⟩
        · exact .inl ((Action.bind_of_ok hv _).trans (Action.bind_of_error h _))
        · exact .inr ⟨e', w₂, (Action.bind_of_ok hv _).trans (Action.bind_of_ok hentry _), h⟩
      · cases h
  | shown scope code => exact .inl (Action.bind_of_error h _)
  | test scope code => exact .inl (Action.bind_of_error h _)
  | source scope p target source body => exact .inl (Action.bind_of_error h _)
  | item it => exact .inl (Action.bind_of_error h _)
  | target scope p target body v => exact .inl (Action.bind_of_error h _)
  | endless => exact .inl (Action.bind_of_error h _)

theorem part_body {p : Part} {t : Template} {path : String} {ns : List Node}
    (hp : p.body? = some (t, path, ns)) (data : Ref) (sections : Sections) :
    part env ev (n + 1) p data sections =
      body (around env ev (env.host.calls n) (part env ev n) data sections) t path data ns := by
  unfold Part.body? at hp
  split at hp
  · cases hp
    rfl
  · split at hp
    · rename_i ns htree
      cases hp
      exact part_page env ev n htree data sections
    · cases hp

/-- A render that stops inside a boundary stops by one of its acts. -/
theorem part_stopped
    (h : (part env ev (n + 1) e.part e.data e.sections).run
      { w with boundary := some e.boundary } = .error s w') :
    ∃ a, e.Acts env ev n w a ∧ a.StopsBy (part env ev n) s w' := by
  cases hp : e.part.body? with
  | some found =>
    obtain ⟨t, path, ns⟩ := found
    rw [part_body hp] at h
    rcases Action.bind_error h with h | ⟨frame, w₁, hf, h⟩
    · cases h
    · obtain ⟨m, hm, hstop⟩ := nodes_stopped ns h
      exact ⟨_, .body hp hf hm, perform_stopped hstop m.line m.passed⟩
  | none =>
    unfold Part.body? at hp
    split at hp
    · cases hp
    · rename_i t hpart
      split at hp
      · cases hp
      · rename_i p name own htree
        rw [hpart, part_extension env ev n htree] at h
        have h := marked_stopped h
        rw [extend_eq] at h
        refine ⟨_, .layout hpart htree, ?_⟩
        rcases Action.bind_error h with h | ⟨e', w₁, hentry, h⟩
        · exact .inl (Action.bind_of_error h _)
        · exact .inr ⟨e', w₁, Action.bind_of_ok hentry _, h⟩

theorem Entry.Acts.shows (h : e.Acts env ev n w a) :
    Shows e.boundary (a.line :: a.passed) a.world := by
  have hstart : Shows e.boundary [0] { w with boundary := some e.boundary } :=
    ⟨0, List.mem_singleton_self 0, by
      rw [Boundary.atLine, Int.ofNat_zero, ← e.unmarked]⟩
  cases h with
  | body hp hf hm => exact hm.shows (reach_returns n e) (hstart.kept (evaluate_keeps _) hf)
  | layout hp ht => exact hstart.marked _

end Acting

/-- A place or an inclusion is one of some leaves, on the line where the moment is. -/
def Moment.StandsIn (leaves : List Node) : Moment → Prop
  | ⟨.place name fallback, line, passed, _⟩ =>
    passed = [] ∧ ∃ p, p.line = line ∧ .yielding p name fallback ∈ leaves
  | ⟨.inclusion _ name given, line, passed, _⟩ =>
    passed = [] ∧ ∃ p, p.line = line ∧ .including p name given ∈ leaves
  | _ => True

theorem Moment.StandsIn.mono {m : Moment} {leaves leaves' : List Node} (h : m.StandsIn leaves)
    (hl : leaves ⊆ leaves') : m.StandsIn leaves' := by
  obtain ⟨own, line, passed, world⟩ := m
  cases own with
  | place name fallback =>
    obtain ⟨hpassed, p, hline, hp⟩ := h
    exact ⟨hpassed, p, hline, hl hp⟩
  | inclusion scope name given =>
    obtain ⟨hpassed, p, hline, hp⟩ := h
    exact ⟨hpassed, p, hline, hl hp⟩
  | _ => trivial

section Places

variable {reach : Reach}

mutual

/-- A place or an inclusion that a node comes to stands in the node. -/
theorem VisitsNode.standsIn : ∀ {scope : Scope} {n : Node} {w : World} {m : Moment},
    VisitsNode reach scope n w m → m.StandsIn n.leaves
  | _, _, _, _, .shown => trivial
  | _, _, _, _, .place => ⟨rfl, _, rfl, List.mem_cons_self⟩
  | _, _, _, _, .inclusion => ⟨rfl, _, rfl, List.mem_cons_self⟩
  | _, _, _, _, .test => trivial
  | _, _, _, _, .taken _ hm => hm.standsIn.mono <|
    List.subset_append_of_subset_left _ (List.subset_append_left _ _)
  | _, _, _, _, .others _ hm => hm.standsIn.mono <| by
    rw [Node.leaves, List.append_assoc]
    exact List.subset_append_right _ _
  | _, _, _, _, .source => trivial
  | _, _, _, _, .passes _ hm => hm.standsIn
  | _, _, _, _, .tests hm => hm.standsIn

theorem Visits.standsIn : ∀ {scope : Scope} {ns : List Node} {w : World} {m : Moment},
    Visits reach scope ns w m → m.StandsIn (Node.leavesOf ns)
  | _, _, _, _, .head hm => hm.standsIn.mono (List.subset_append_left _ _)
  | _, _, _, _, .tail _ hm => hm.standsIn.mono (List.subset_append_right _ _)

theorem VisitsBranches.standsIn : ∀ {scope : Scope} {others : List (Code × List Node)}
    {otherwise : List Node} {w : World} {m : Moment},
    VisitsBranches reach scope others otherwise w m →
      m.StandsIn (Node.leavesOfOthers others ++ Node.leavesOf otherwise)
  | _, _, _, _, _, .otherwise hm => hm.standsIn
  | _, _, _, _, _, .test => trivial
  | _, _, _, _, _, .taken _ hm => hm.standsIn.mono <|
    List.subset_append_of_subset_left _ (List.subset_append_left _ _)
  | _, _, _, _, _, .others _ hm => hm.standsIn.mono <| by
    rw [Node.leavesOfOthers, List.append_assoc]
    exact List.subset_append_right _ _

theorem VisitsPasses.standsIn : ∀ {scope : Scope} {p : Text.Position} {target : Code}
    {body : List Node} {it : Value} {fuel : Nat} {passed : List Nat} {w : World} {m : Moment},
    VisitsPasses reach scope p target body it fuel passed w m →
      m.StandsIn (Node.leavesOf body)
  | _, _, _, _, _, _, _, _, _, .endless => trivial
  | _, _, _, _, _, _, _, _, _, .item => trivial
  | _, _, _, _, _, _, _, _, _, .target _ => trivial
  | _, _, _, _, _, _, _, _, _, .body _ _ hm => hm.standsIn
  | _, _, _, _, _, _, _, _, _, .next _ _ hm => hm.standsIn

theorem VisitsTests.standsIn : ∀ {scope : Scope} {p : Text.Position} {t : Code}
    {body : List Node} {fuel : Nat} {w : World} {m : Moment},
    VisitsTests reach scope p t body fuel w m → m.StandsIn (Node.leavesOf body)
  | _, _, _, _, _, _, _, .endless => trivial
  | _, _, _, _, _, _, _, .test => trivial
  | _, _, _, _, _, _, _, .body _ hm => hm.standsIn
  | _, _, _, _, _, _, _, .next _ _ hm => hm.standsIn

end

end Places

/-- A directive on this line of the entry asks for a hop. -/
inductive Entry.Directs (e : Entry) (line : Nat) : Hop → Prop
  | place {t : Template} {path : String} {ns : List Node} {p : Text.Position}
      {name fallback : String} (hp : e.part.body? = some (t, path, ns))
      (hn : .yielding p name fallback ∈ Node.leavesOf ns) (hl : p.line = line) :
      e.Directs line (.filled name)
  | inclusion {t : Template} {path : String} {ns : List Node} {p : Text.Position} {name : String}
      {given : Option Code} (hp : e.part.body? = some (t, path, ns))
      (hn : .including p name given ∈ Node.leavesOf ns) (hl : p.line = line) :
      e.Directs line (.included name)
  | layout {t : Template} {p : Text.Position} {name : String} {own : List Section}
      (hp : e.part = .whole t) (ht : t.tree = .extension p name own) (hl : p.line = line) :
      e.Directs line (.extended name)

/-- A directive on this line of the entry asks for a template of this name. -/
def Entry.Nests (e : Entry) (line : Nat) (name : String) : Prop :=
  e.Directs line (.included name) ∨ e.Directs line (.extended name)

/-- The stop comes from the boundary `b` of an act, be it that the template asked for by the
directive at work may not be entered from there. -/
def Act.RaisedIn (e : Entry) (a : Act) (b : Option Boundary) (s : Stop) : Prop :=
  s.RaisedIn b ∨
    ∃ name here, b = some here ∧ s.TooDeepIn here name ∧ a.passed = [] ∧ e.Nests a.line name

theorem Act.RaisedIn.of_before {e : Entry} {a : Act} {b : Option Boundary} {s : Stop}
    {name : String} (h : s.RaisedBefore name b) (hpassed : a.passed = [])
    (hnests : e.Nests a.line name) : Act.RaisedIn e a b s := by
  rcases h with h | ⟨here, hb, h⟩
  · exact .inl h
  · exact .inr ⟨name, here, hb, h, hpassed, hnests⟩

section Raising

variable {env : Environment} {ev : Evaluator} {n : Nat} {e : Entry} {a : Act} {w : World}

theorem Entry.Acts.stays (h : e.Acts env ev n w a) : a.action.Stays (Act.RaisedIn e a) := by
  have hevaluate {α : Type} (x : Eval α) : ((e.reach env ev n).evaluate x).IsLocal :=
    .evaluateUnder _ x
  have hlocal {a : Act} (h : a.action.IsLocal) : a.action.Stays (Act.RaisedIn e a) :=
    h.mono fun b s => .inl
  cases h with
  | body hp hf hm =>
    rename_i m
    have hstands := hm.standsIn
    obtain ⟨own, line, passed, world⟩ := m
    cases own with
    | place name fallback => exact hlocal (sectionEntry_local _ _ name)
    | inclusion scope name given =>
      obtain ⟨hpassed, p, hline, hinclusion⟩ := hstands
      have hgiven : (givenData (e.reach env ev n) scope given).IsLocal := by
        cases given <;> exact hevaluate _
      have hnests : e.Nests line name := .inl (.inclusion hp hinclusion hline)
      refine .bind (hgiven.mono fun b s => .inl) fun v => .bind ?_ fun e' => ?_
      · exact (partialEntry_stays _ _ name v).mono fun b s hs => .of_before hs hpassed hnests
      · exact (Action.IsLocal.pure (some e')).mono fun b s => .inl
    | shown scope code =>
      refine hlocal
        (.bind (.bind (hevaluate _) fun v => .bind ?_ fun _ => .pure _) fun _ => .pure _)
      exact .bind .heap fun _ => .ofExcept _
    | test scope code =>
      refine hlocal
        (.bind (.bind (.bind (hevaluate _) fun v => ?_) fun _ => .pure _) fun _ => .pure _)
      exact .bind .heap fun _ => .pure _
    | source scope p target source body =>
      exact hlocal (.bind (.bind (.bind (hevaluate _) fun v => hevaluate _) fun _ => .pure _)
        fun _ => .pure _)
    | item it => exact hlocal (.bind (.bind (hevaluate _) fun _ => .pure _) fun _ => .pure _)
    | target scope p target body v => exact hlocal (.bind (hevaluate _) fun _ => .pure _)
    | endless => exact hlocal (.bind (.throw fun _ => .outOfSteps) fun _ => .pure _)
  | @layout t p name own hp ht =>
    have hnests : e.Nests p.line name := .inr (.layout hp ht rfl)
    refine .bind ?_ fun e' => (Action.IsLocal.pure (some e')).mono fun b s => .inl
    exact (layoutEntry_stays _ _ _ _ name).mono fun b s hs => .of_before hs rfl hnests

end Raising

section Leading

variable (env : Environment)

/-- From one entry another can be made: by a place in it, by an inclusion, or by `@extends`. -/
inductive Entry.Leads (e : Entry) : Entry → Prop
  | place {line : Int} {t : Template} {path : String} {ns : List Node} {p : Text.Position}
      {name fallback : String} {s : BoundSection} (hp : e.part.body? = some (t, path, ns))
      (hplace : .yielding p name fallback ∈ Node.leavesOf ns)
      (hs : e.sections.lookup name = some s) :
      e.Leads ⟨(e.boundary.atLine line).ofSection s.owner.name s.owner.filename
        (some s.owner.source.text), .sectionBody s, e.data, e.sections, rfl⟩
  | inclusion {line : Int} {name : String} {calls : Nat} {t : Template} {w w' : World} {data : Ref}
      (hd : e.boundary.depth < e.boundary.limit)
      (hload : (env.loadUnder calls name).run w = .ok t w') :
      e.Leads ⟨(e.boundary.atLine line).child name t.filename (some t.source.text) false,
        .whole t, data, [], rfl⟩
  | layout {line : Int} {t u : Template} {p : Text.Position} {name : String} {own : List Section}
      {calls : Nat} {w w' : World} (hp : e.part = .whole t) (ht : t.tree = .extension p name own)
      (hc : name ∉ e.boundary.chain) (hd : e.boundary.depth < e.boundary.limit)
      (hload : (env.loadUnder calls name).run w = .ok u w') :
      e.Leads ⟨(e.boundary.atLine line).child name u.filename (some u.source.text) true,
        .whole u, e.data, e.sections.register t, rfl⟩

variable {env} {ev : Evaluator} {n : Nat} {e e' : Entry} {a : Act} {w w' : World}

theorem here_ok {b : Boundary} {f : Boundary → Action α} {x : α} (hw : w.boundary = some b)
    (h : (Action.here >>= f).run w = .ok x w') : (f b).run w = .ok x w' := by
  rwa [Action.run_here_bind hw] at h

theorem orReject_ok {β : Type} {c : Except TemplateError Unit} {f : Unit → Action β} {x : β}
    (h : (Action.orReject c >>= f).run w = .ok x w') : c = .ok () ∧ (f ()).run w = .ok x w' := by
  cases c with
  | error e => cases h
  | ok u => exact ⟨rfl, h⟩

theorem checkDepth_ok {b : Boundary} {name : String} :
    b.checkDepth name = .ok () ↔ b.depth < b.limit := by
  unfold Boundary.checkDepth
  split
  · rename_i hd
    exact iff_of_false nofun (Int.not_lt.mpr hd)
  · rename_i hd
    exact iff_of_true rfl (Int.not_le.mp hd)

theorem checkCycle_ok {b : Boundary} {name : String} :
    b.checkCycle name = .ok () ↔ name ∉ b.chain := by
  unfold Boundary.checkCycle
  split
  · rename_i hc
    exact iff_of_false nofun (not_not_intro (List.contains_iff_mem.mp hc))
  · rename_i hc
    exact iff_of_true rfl fun h => hc (List.contains_iff_mem.mpr h)

theorem sectionEntry_ok {b : Boundary} {data : Ref} {sections : Sections} {name : String}
    (hw : w.boundary = some b)
    (h : (sectionEntry data sections name).run w = .ok (some e') w') :
    ∃ s, sections.lookup name = some s ∧
      e' = ⟨b.ofSection s.owner.name s.owner.filename (some s.owner.source.text), .sectionBody s,
        data, sections, rfl⟩ := by
  unfold sectionEntry at h
  split at h
  · cases h
  · rename_i s hs
    cases here_ok hw h
    exact ⟨s, hs, rfl⟩

theorem partialEntry_ok {b : Boundary} {calls : Nat} {name : String} {v : Value}
    (hw : w.boundary = some b) (h : (partialEntry env calls name v).run w = .ok e' w') :
    b.depth < b.limit ∧ ∃ t w₁ data, (env.loadUnder calls name).run w = .ok t w₁ ∧
      e' = ⟨b.child name t.filename (some t.source.text) false, .whole t, data, [], rfl⟩ := by
  unfold partialEntry at h
  split at h
  · obtain ⟨hdepth, h⟩ := orReject_ok (here_ok hw h)
    obtain ⟨t, w₁, hload, h⟩ := Action.bind_ok h
    obtain ⟨heap, w₂, -, h⟩ := Action.bind_ok h
    obtain ⟨data, w₃, -, h⟩ := Action.bind_ok h
    cases h
    exact ⟨checkDepth_ok.mp hdepth, t, w₁, data, hload, rfl⟩
  · cases h

theorem layoutEntry_ok {b : Boundary} {calls : Nat} {data : Ref} {sections : Sections}
    {name : String} (hw : w.boundary = some b)
    (h : (layoutEntry env calls data sections name).run w = .ok e' w') :
    name ∉ b.chain ∧ b.depth < b.limit ∧ ∃ t w₁, (env.loadUnder calls name).run w = .ok t w₁ ∧
      e' = ⟨b.child name t.filename (some t.source.text) true, .whole t, data, sections, rfl⟩ := by
  unfold layoutEntry at h
  obtain ⟨hcycle, h⟩ := orReject_ok (here_ok hw h)
  obtain ⟨hdepth, h⟩ := orReject_ok h
  obtain ⟨t, w₁, hload, h⟩ := Action.bind_ok h
  cases h
  exact ⟨checkCycle_ok.mp hcycle, checkDepth_ok.mp hdepth, t, _, hload, rfl⟩

theorem Entry.Acts.leads (ha : e.Acts env ev n w a)
    (h : a.action.run a.world = .ok (some e') w') : e.Leads env e' := by
  obtain ⟨line, -, hw⟩ := ha.shows
  cases ha with
  | @body t path ns frame w₁ m hp hf hm =>
    have hstands := hm.standsIn
    have hlocally : (m.own.locally env (e.reach env ev n) e.data e.sections).run m.world =
      .ok (some e') w' := h
    obtain ⟨own, line, passed, world⟩ := m
    cases own with
    | place name fallback =>
      obtain ⟨-, p, -, hplace⟩ := hstands
      obtain ⟨s, hs, rfl⟩ := sectionEntry_ok hw hlocally
      exact .place hp hplace hs
    | inclusion scope name given =>
      obtain ⟨v, w₂, hv, hlocally⟩ := Action.bind_ok hlocally
      obtain ⟨e₁, w₃, hentry, hlocally⟩ := Action.bind_ok hlocally
      cases hlocally
      have hw₂ := (givenData_keeps _ _ _ _ _ hv).trans hw
      obtain ⟨hd, t, w₄, data, hload, rfl⟩ := partialEntry_ok hw₂ hentry
      exact .inclusion hd hload
    | _ =>
      obtain ⟨_, _, _, hlocally⟩ := Action.bind_ok hlocally
      cases hlocally
  | layout hp ht =>
    obtain ⟨e₁, w₁, hentry, h⟩ := Action.bind_ok h
    cases h
    obtain ⟨hc, hd, u, w₂, hload, rfl⟩ := layoutEntry_ok hw hentry
    exact .layout hp ht hc hd hload

/-- Parts and sections are those of templates as `K` says. -/
structure Entry.From (K : Template → Prop) (e : Entry) : Prop where
  part : match e.part with
    | .whole t => K t
    | .sectionBody s => K s.owner ∧ s.body ∈ s.owner.tree.bodies
  sections : e.sections.From K

theorem Entry.Leads.from {K : Template → Prop}
    (hK : ∀ calls name t w w', (env.loadUnder calls name).run w = .ok t w' → K t)
    (h : e.Leads env e') (he : e.From K) : e'.From K := by
  cases h with
  | place hp hplace hs => exact ⟨he.sections.lookup hs, he.sections⟩
  | inclusion hd hload => exact ⟨hK _ _ _ _ _ hload, Sections.from_nil⟩
  | layout hp ht hc hd hload =>
    have hpart := he.part
    rw [hp] at hpart
    exact ⟨hK _ _ _ _ _ hload, he.sections.register hpart⟩

end Leading

end Render

end Stencil
