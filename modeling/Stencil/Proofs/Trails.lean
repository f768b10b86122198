import Stencil.Proofs.Delivery
import Stencil.Proofs.Hops

/-!
# Every fault is reported once

What is raised while a template is rendered is raised in the innermost boundary. If it is a fault,
this boundary makes it an error of its template, and this error is what the whole render ends
with; an error of a template is passed on as it is. The call sites told with it are the
directives by which the render has come to the boundary, the outermost first.

A fault whose message cannot be written is no cause of an error. What goes wrong in writing it is
raised instead, by the directive that has led to the boundary, or outside of all of them.
-/

namespace Stencil

open Render

/-- The template of a part: itself, or the owner of the section. -/
def Render.Part.template : Part → Template
  | .whole t => t
  | .sectionBody s => s.owner

/-- The templates around the present one, the outermost first, each by its name and with the line
of the directive that is executed in it. -/
abbrev Trail := List (Option String × Nat)

namespace Trail

def sites (trail : Trail) : List CallSite :=
  trail.filterMap fun (name, line) => (nonEmpty name).map fun t => ⟨t, line⟩

theorem sites_concat (trail : Trail) (name : Option String) (line : Nat) :
    sites (trail ++ [(name, line)]) =
      sites trail ++ ((nonEmpty name).map fun t => (⟨t, line⟩ : CallSite)).toList := by
  rw [sites, List.filterMap_append, sites]
  cases h : nonEmpty name <;> simp [h]

end Trail

section Trails

variable (env : Environment) (ev : Evaluator)

/-- Rendering `top` from `w₀` comes along a trail to rendering an entry from a state, where so many
boundaries may be inside one another. -/
inductive Trails (top : Entry) (w₀ : World) : Trail → Nat → Entry → World → Prop
  | start : Trails top w₀ [] env.host.room top w₀
  | into {trail : Trail} {n : Nat} {e e' : Entry} {w w' : World} {a : Act}
      (h : Trails top w₀ trail (n + 1) e w) (ha : e.Acts env ev n w a)
      (he : a.action.run a.world = .ok (some e') w') :
      Trails top w₀ (trail ++ [(e.part.template.name, a.line)]) n e' w'

/-- Rendering `top` from `w₀` raises a stop in the entry `e`, at the end of a trail: by a construct
on a line of its template, or, where too many calls are under way, on entering it. -/
inductive Raises (top : Entry) (w₀ : World) : Trail → Entry → Option Nat → Stop → Prop
  | construct {trail : Trail} {n : Nat} {e : Entry} {w w' : World} {a : Act} {s : Stop}
      (h : Trails env ev top w₀ trail (n + 1) e w) (ha : e.Acts env ev n w a)
      (hs : a.action.run a.world = .error s w') : Raises top w₀ trail e (some a.line) s
  | entrance {trail : Trail} {e : Entry} {w : World} (h : Trails env ev top w₀ trail 0 e w) :
      Raises top w₀ trail e none (.failed (.fault .tooRecursive))

end Trails

/-- The call sites that an error raised at the end of a trail tells: those of the trail, for a
template that is nested too deep with the directive asking for it behind them. -/
inductive TemplateError.Tells (trail : Trail) (e : Entry) (line : Option Nat) :
    TemplateError → Prop
  | tooDeep {k : Nat} {name : String} (limit : Int) (hline : line = some k)
      (hnests : e.Nests k name) :
      Tells trail e line
        (.tooDeep name limit (Trail.sites (trail ++ [(e.part.template.name, k)])))
  | undefined (name : String) (guess : Option String) {f : RenderFailure}
      (hf : f.stack = trail.sites) : Tells trail e line (.undefined name guess f)
  | unplaced {err : TemplateError} (herr : err.stack? = none) : Tells trail e line err

/-- What comes of a fault in the boundary it was raised in, where it cannot be told. -/
inductive Stop.Untold : Stop → Stop → Prop
  | fault {f g : Fault} (hg : f.inWriting? = some g) :
      Untold (.failed (.fault f)) (.failed (.fault g))

/-- What a stop raised at the end of a trail is reported as. A fault is the cause of a failure of
the template it was raised in; everything else is what it was. Of a fault that cannot be told what
goes wrong in telling it is the cause, and the template that fails is the one around, at the
directive that ends the trail. -/
inductive Stop.Surfaces (trail : Trail) (e : Entry) : Stop → Stop → Prop
  | fault {f : Fault} (htold : f.inWriting? = none) (line : Option Int)
      (snippet : Option Snippet) :
      Surfaces trail e (.failed (.fault f)) (.failed (.template (.failed f.headline none
        ⟨e.part.template.name, line, some f, snippet, trail.sites⟩)))
  | untold {f g : Fault} (hg : f.inWriting? = some g) {around : Trail} {name : Option String}
      {line : Nat} (htrail : trail = around ++ [(name, line)]) (snippet : Option Snippet) :
      Surfaces trail e (.failed (.fault f)) (.failed (.template (.failed g.headline none
        ⟨name, some line, some g, snippet, around.sites⟩)))
  | error (err : TemplateError) :
      Surfaces trail e (.failed (.template err)) (.failed (.template err))
  | outOfSteps : Surfaces trail e .outOfSteps .outOfSteps

/-- What a stop raised at the end of a trail has become outside of all templates: where no template
is around, a fault that cannot be told has been reported by none. -/
inductive Stop.EndsAs (trail : Trail) (e : Entry) (s s' : Stop) : Prop
  | reported (h : s.Surfaces trail e s')
  | escaped (htrail : trail = []) (h : s.Untold s')

theorem Stop.Surfaces.not_fault {trail : Trail} {e : Entry} {s s' : Stop}
    (h : s.Surfaces trail e s') (f : Fault) : s' ≠ .failed (.fault f) := by
  cases h <;> nofun

namespace Render

/-- What a hop from an entry renders. -/
inductive Entry.Makes (e : Entry) : Hop → Part → Prop
  | filled {name : String} {s : BoundSection} (hs : e.sections.lookup name = some s) :
      e.Makes (.filled name) (.sectionBody s)
  | included {name : String} {t : Template} (ht : t.name = some name) :
      e.Makes (.included name) (.whole t)
  | extended {name : String} {t : Template} (ht : t.name = some name) :
      e.Makes (.extended name) (.whole t)

variable {env : Environment} {ev : Evaluator} {n : Nat} {e e' : Entry} {a : Act} {w w' : World}
  {s : Stop}

theorem Shows.exactly {b : Boundary} {line : Nat} {passed : List Nat} {w : World}
    (h : Shows b (line :: passed) w) (hpassed : passed = []) :
    w.boundary = some (b.atLine line) := by
  subst hpassed
  obtain ⟨k, hk, hw⟩ := h
  rwa [List.mem_singleton.mp hk] at hw

/-- The boundary that an act enters belongs to the part it makes, and its call sites end with the
line of the directive. -/
theorem Entry.Acts.entered (ha : e.Acts env ev n w a)
    (h : a.action.run a.world = .ok (some e') w') :
    ∃ hop, e.Directs a.line hop ∧ e.Makes hop e'.part ∧
      e'.boundary.template = e'.part.template.name ∧
      e'.boundary.stack = (e.boundary.atLine a.line).sites ∧ a.passed = [] := by
  have hshows := ha.shows
  cases ha with
  | @body t path ns frame w₁ m hp hf hm =>
    have hstands := hm.standsIn
    have hlocally : (m.own.locally env (e.reach env ev n) e.data e.sections).run m.world =
      .ok (some e') w' := h
    obtain ⟨own, line, passed, world⟩ := m
    cases own with
    | place name fallback =>
      obtain ⟨hpassed, p, hline, hplace⟩ := hstands
      obtain ⟨s, hs, rfl⟩ := sectionEntry_ok (hshows.exactly hpassed) hlocally
      exact ⟨.filled name, .place hp hplace hline, .filled hs, rfl, rfl, hpassed⟩
    | inclusion scope name given =>
      obtain ⟨hpassed, p, hline, hinclusion⟩ := hstands
      obtain ⟨v, w₂, hv, hlocally⟩ := Action.bind_ok hlocally
      obtain ⟨e₁, w₃, hentry, hlocally⟩ := Action.bind_ok hlocally
      cases hlocally
      have hw₂ := (givenData_keeps _ _ _ _ _ hv).trans (hshows.exactly hpassed)
      obtain ⟨-, u, w₄, data, hload, rfl⟩ := partialEntry_ok hw₂ hentry
      have hname := (Environment.loadUnder_ok hload).1
      exact ⟨.included name, .inclusion hp hinclusion hline, .included hname, hname.symm, rfl, hpassed⟩
    | _ =>
      obtain ⟨_, _, _, hlocally⟩ := Action.bind_ok hlocally
      cases hlocally
  | @layout t p name own hp ht =>
    obtain ⟨e₁, w₁, hentry, h⟩ := Action.bind_ok h
    cases h
    obtain ⟨-, -, u, w₂, hload, rfl⟩ := layoutEntry_ok (hshows.exactly rfl) hentry
    have hname := (Environment.loadUnder_ok hload).1
    exact ⟨.extended name, .layout hp ht rfl, .extended hname, hname.symm, rfl, rfl⟩

end Render

section Reports

variable {env : Environment} {ev : Evaluator} {t : Template} {r : Ref} {w₀ w : World}
  {trail : Trail} {n : Nat} {e : Entry} {line : Option Nat} {s : Stop}

/-- The boundary of an entry is that of its part and tells the trail. -/
structure Trail.LeadsTo (trail : Trail) (e : Entry) : Prop where
  template : e.boundary.template = e.part.template.name
  stack : e.boundary.stack = trail.sites
  read : e.From Template.IsRead

/-- What is entered from a line of the entry is told this line, too. -/
theorem Trail.LeadsTo.sites (h : trail.LeadsTo e) {line : Nat} (hpos : 0 < line) :
    (e.boundary.atLine line).sites = Trail.sites (trail ++ [(e.part.template.name, line)]) := by
  have hline : (0 : Int) < line := Int.natCast_pos.mpr hpos
  rw [Trail.sites_concat, ← h.template, ← h.stack]
  unfold Boundary.sites
  have htemplate : (e.boundary.atLine line).template = e.boundary.template := rfl
  rw [htemplate]
  cases nonEmpty e.boundary.template with
  | none => exact (List.append_nil _).symm
  | some name => exact if_pos hline

/-- The induction is on the trail; lines of read templates are counted from one. -/
theorem Trails.leadsTo (ht : t.IsRead) (h : Trails env ev (t.entry env r) w₀ trail n e w) :
    trail.LeadsTo e := by
  induction h with
  | start => exact ⟨rfl, rfl, ht, Sections.from_nil⟩
  | into h ha he ih =>
    obtain ⟨hop, -, -, htemplate, hstack, -⟩ := ha.entered he
    have hpos := acts_lines_pos ih.read ha _ List.mem_cons_self
    have hread := (ha.leads he).from
      (fun _ _ _ _ _ hload => (Environment.loadUnder_ok hload).2) ih.read
    exact ⟨htemplate, hstack.trans (ih.sites hpos), hread⟩

/-- A boundary makes of a stop what it is reported as, unless it cannot tell it. -/
theorem Trail.LeadsTo.reported (h : trail.LeadsTo e) (line : Int) (s : Stop) :
    s.Surfaces trail e (Action.reported (e.boundary.atLine line) s) ∨
      s.Untold (Action.reported (e.boundary.atLine line) s) := by
  cases s with
  | outOfSteps => exact .inl .outOfSteps
  | failed failure =>
    cases failure with
    | template err => exact .inl (.error err)
    | fault f =>
      cases hf : f.inWriting? with
      | none =>
        have hfault : Stop.Surfaces trail e _ _ :=
          .fault hf (nonZero (some line)) (e.boundary.atLine line).snippet?
        rw [← h.template, ← h.stack] at hfault
        rw [Action.reported_told _ hf]
        exact .inl hfault
      | some g =>
        rw [Action.reported_untold _ hf]
        exact .inr (.fault hf)

/-- The boundary around reports what was not told, at the directive that ends the trail. -/
theorem Trail.LeadsTo.around (h : trail.LeadsTo e) {line : Nat} (hpos : 0 < line) {s₀ : Stop}
    (hs : s₀.Untold s) (e' : Entry) :
    s₀.Surfaces (trail ++ [(e.part.template.name, line)]) e'
      (Action.reported (e.boundary.atLine line) s) := by
  obtain ⟨hg⟩ := hs
  have huntold : Stop.Surfaces (trail ++ [(e.part.template.name, line)]) e' _ _ :=
    .untold hg rfl (e.boundary.atLine line).snippet?
  rw [← h.template, ← h.stack] at huntold
  have hline : nonZero (some (line : Int)) = some (line : Int) :=
    if_neg (Int.natCast_ne_zero.mpr hpos.ne')
  rw [← hline] at huntold
  rw [Action.reported_told _ (Fault.inWriting?_inWriting hg), ← h.template]
  exact huntold

theorem Render.Entry.Acts.boundary_of_stop {a : Act} {w' : World} (ha : e.Acts env ev n w a)
    (hs : a.action.run a.world = .error s w') :
    ∃ line : Nat, a.world.boundary = some (e.boundary.atLine line) ∧
      w'.boundary = some (e.boundary.atLine line) := by
  obtain ⟨line, -, hw⟩ := ha.shows
  exact ⟨line, hw, (ha.stays.raises hs).1.trans hw⟩

/-- Where an entry has stopped, the line of the directive that made it is shown. -/
theorem Render.Entry.Acts.shown_behind {a : Act} {e' : Entry} {w' w₁ : World}
    (ha : e.Acts env ev n w a) (he : a.action.run a.world = .ok (some e') w')
    (hrun : (e'.render (Render.part env ev n)).run w' = .error s w₁) :
    w₁.boundary = some (e.boundary.atLine a.line) := by
  obtain ⟨hop, -, -, -, -, hpassed⟩ := ha.entered he
  obtain ⟨line, hline, hw⟩ := Stencil.shown_behind ha he hrun
  rw [hpassed] at hline
  rwa [List.mem_singleton.mp hline] at hw

/-- A stop that is no fault any more goes back along the trail as it is. -/
theorem Trails.stops {top : Entry} (h : Trails env ev top w₀ trail n e w)
    (hs : ∀ f, s ≠ .failed (.fault f)) {w' : World}
    (hrun : (e.render (part env ev n)).run w = .error s w') :
    ∃ w'', (top.render (part env ev env.host.room)).run w₀ = .error s w'' := by
  induction h generalizing w' with
  | start => exact ⟨w', hrun⟩
  | into h ha he ih =>
    obtain ⟨w₂, hrender⟩ := ha.render_stops (.inr ⟨_, _, he, hrun⟩)
    rw [Action.reported_of_not_fault _ hs] at hrender
    exact ih hrender

/-- What a boundary makes of a stop becomes along the trail what the stop ends as. -/
theorem Trails.ends (ht : t.IsRead) (h : Trails env ev (t.entry env r) w₀ trail n e w)
    {k : Int} {w' : World} (hrun : (e.render (part env ev n)).run w =
      .error (Action.reported (e.boundary.atLine k) s) w') :
    ∃ s' w'', s.EndsAs trail e s' ∧
      ((t.entry env r).render (part env ev env.host.room)).run w₀ = .error s' w'' := by
  rcases (h.leadsTo ht).reported k s with hsurfaces | huntold
  · obtain ⟨w'', htop⟩ := h.stops hsurfaces.not_fault hrun
    exact ⟨_, w'', .reported hsurfaces, htop⟩
  · cases h with
    | start => exact ⟨_, w', .escaped rfl huntold, hrun⟩
    | into h ha he =>
      have hleads := h.leadsTo ht
      have hpos := acts_lines_pos hleads.read ha _ List.mem_cons_self
      have hsurfaces := hleads.around hpos huntold e
      obtain ⟨w₂, hrender⟩ := ha.render_stops (.inr ⟨_, _, he, hrun⟩)
      rw [ha.shown_behind he hrun] at hrender
      obtain ⟨w'', htop⟩ := h.stops hsurfaces.not_fault hrender
      exact ⟨_, w'', .reported hsurfaces, htop⟩

theorem entrance_stops (env : Environment) (ev : Evaluator) (e : Entry) (w : World) :
    ∃ w', (e.render (part env ev 0)).run w =
      .error (Action.reported (e.boundary.atLine 0) (.failed (.fault .tooRecursive))) w' := by
  have hunmarked : e.boundary.atLine 0 = e.boundary := by
    rw [Boundary.atLine, ← e.unmarked]
  rw [hunmarked]
  exact ⟨_, Action.within_of_error rfl⟩

theorem Raises.render_stops (ht : t.IsRead)
    (h : Raises env ev (t.entry env r) w₀ trail e line s) :
    ∃ s' w', s.EndsAs trail e s' ∧
      ((t.entry env r).render (part env ev env.host.room)).run w₀ = .error s' w' := by
  cases h with
  | construct h ha hs =>
    obtain ⟨line, -, hw'⟩ := ha.boundary_of_stop hs
    obtain ⟨w₂, hrender⟩ := ha.render_stops (.inl hs)
    rw [hw'] at hrender
    exact h.ends ht hrender
  | @entrance _ w h =>
    obtain ⟨w₂, hrender⟩ := entrance_stops env ev e w
    exact h.ends ht hrender

/-- No error that a boundary has made of a fault is raised again, and the others tell the
trail. -/
theorem Raises.tells (ht : t.IsRead) {err : TemplateError}
    (h : Raises env ev (t.entry env r) w₀ trail e line (.failed (.template err))) :
    err.Tells trail e line := by
  cases h with
  | construct h ha hs =>
    have hleads := h.leadsTo ht
    have hshows := ha.shows
    obtain ⟨k, hw, -⟩ := ha.boundary_of_stop hs
    obtain ⟨-, hraised⟩ := ha.stays.raises hs
    rcases hraised with hraised | ⟨name, here, hhere, hdeep, hpassed, hnests⟩
    · rw [hw] at hraised
      cases hraised with
      | missing name available => exact .undefined name _ hleads.stack
      | unplaced herr => exact .unplaced herr
    · cases hhere.symm.trans (hshows.exactly hpassed)
      cases hdeep
      have hpos := acts_lines_pos hleads.read ha _ List.mem_cons_self
      rw [hleads.sites hpos]
      exact .tooDeep _ rfl hnests

end Reports

end Stencil
