import Stencil.Proofs.Entries
import Stencil.Proofs.Positions

/-!
# The reported line

A render that fails names a line of the innermost template that was active. It is the line of the
construct whose own doing has failed: a test, the first or any later one, the source of a loop,
its first item and the assignment of that, an interpolation, an inclusion, or `@extends`. Only
what a loop over items does behind a pass, the next item and its assignment, is reported at the
line that the pass has marked last. A failure whose message cannot be written is none of the
innermost template any more: it is a failure of the directive by which this was entered.
-/

namespace Stencil

open Render

inductive Cause
  | fault (f : Fault)
  | missing (name : String) (available : List String)

/-- What goes wrong instead where a cause is told. -/
def Cause.inTelling? : Cause → Option Fault
  | .fault f => f.inWriting?
  | .missing _ _ => none

def Boundary.report (b : Boundary) : Cause → TemplateError
  | .fault f => b.failure f
  | .missing name available => b.undefinedName name available

inductive Site
  /-- A construct of a template did, at its line. If it is a loop that has made passes, `passed`
  are the lines of its body. -/
  | construct (template : Option String) (line : Nat) (passed : List Nat)
  /-- A template could not be entered, since too many calls were under way. -/
  | entrance (template : Option String)

namespace Site

/-- The innermost template that was active. -/
def template : Site → Option String
  | construct t _ _ | entrance t => t

/-- The lines that may be reported; none is marked where a template is entered. -/
def lines : Site → List Nat
  | construct _ line passed => line :: passed
  | entrance _ => [0]

end Site

namespace Stop

/-- The action stopped in a boundary for this cause. -/
inductive Tells (b : Option Boundary) : Stop → Cause → Prop
  | fault (f : Fault) : Tells b (.failed (.fault f)) (.fault f)
  | missing (name : String) (available : List String) :
      Tells b (.failed (.template (undefinedAt b name available))) (.missing name available)

end Stop

section Failing

variable (env : Environment) (ev : Evaluator)

/-- Rendering an entry from `w`, with at most `n` boundaries inside one another, fails in the entry
itself: it cannot be entered, an act of it stops, or what stops in an entry made by an act cannot be
told there. -/
inductive FailsHere : Nat → Entry → World → Site → Cause → Prop
  | entrance (e : Entry) (w : World) :
      FailsHere 0 e w (.entrance e.boundary.template) (.fault .tooRecursive)
  | act {n : Nat} {e : Entry} {w w' : World} {a : Act} {s : Stop} {c : Cause}
      (ha : e.Acts env ev n w a) (hs : a.action.run a.world = .error s w')
      (hc : s.Tells a.world.boundary c) :
      FailsHere (n + 1) e w (.construct e.boundary.template a.line a.passed) c
  | untold {n : Nat} {e e' : Entry} {w w' : World} {a : Act} {site : Site} {c : Cause} {g : Fault}
      (ha : e.Acts env ev n w a) (he : a.action.run a.world = .ok (some e') w')
      (h : FailsHere n e' w' site c) (hg : c.inTelling? = some g) :
      FailsHere (n + 1) e w (.construct e.boundary.template a.line a.passed) (.fault g)

/-- Rendering an entry from `w`, with at most `n` boundaries inside one another, fails at a site, for
a cause that can be told: in the entry itself, or in one that an act makes. -/
inductive FailsAt : Nat → Entry → World → Site → Cause → Prop
  | here {n : Nat} {e : Entry} {w : World} {site : Site} {c : Cause}
      (h : FailsHere env ev n e w site c) (htold : c.inTelling? = none) : FailsAt n e w site c
  | inside {n : Nat} {e e' : Entry} {w w' : World} {a : Act} {site : Site} {c : Cause}
      (ha : e.Acts env ev n w a) (he : a.action.run a.world = .ok (some e') w')
      (h : FailsAt n e' w' site c) : FailsAt (n + 1) e w site c

/-- Rendering an entry from `w`, with at most `n` boundaries inside one another, goes on for more
steps than there may be: in an act of the entry itself, which is a loop with no end or an
evaluation with none, or in an entry made by an act. -/
inductive RunsOut : Nat → Entry → World → Prop
  | act {n : Nat} {e : Entry} {w w' : World} {a : Act} (ha : e.Acts env ev n w a)
      (hs : a.action.run a.world = .error .outOfSteps w') : RunsOut (n + 1) e w
  | inside {n : Nat} {e e' : Entry} {w w' : World} {a : Act} (ha : e.Acts env ev n w a)
      (he : a.action.run a.world = .ok (some e') w') (h : RunsOut n e' w') : RunsOut (n + 1) e w

/-- What the boundary of an entry makes of a stop: an error of no place in a template, or of a cause
at a line of a site. The only other stops are that of a render that goes on for ever, and what goes
wrong where a cause is told. -/
inductive IsReport (n : Nat) (e : Entry) (w : World) : Stop → Prop
  | outOfSteps (h : RunsOut env ev n e w) : IsReport n e w .outOfSteps
  | unplaced {err : TemplateError} (herr : err.failure? = none) :
      IsReport n e w (.failed (.template err))
  | placed {site : Site} {c : Cause} {b : Boundary} {line : Nat}
      (hfails : FailsAt env ev n e w site c)
      (hb : b.template = site.template) (hline : line ∈ site.lines) :
      IsReport n e w (.failed (.template ((b.atLine line).report c)))
  | untold {site : Site} {c : Cause} {g : Fault} (hfails : FailsHere env ev n e w site c)
      (hg : c.inTelling? = some g) : IsReport n e w (.failed (.fault g))

variable {env ev}

theorem within_stopped {α : Type} {b : Boundary} {x : Action α} {w w' : World} {s : Stop}
    (h : (Action.within b x).run w = .error s w') :
    ∃ s₁ w₁, x.run { w with boundary := some b } = .error s₁ w₁ ∧
      s = Action.reported (w₁.boundary.getD b) s₁ := by
  change Action.within b x w = .error s w' at h
  unfold Action.within at h
  split at h
  · cases h
  · rename_i s₁ w₁ hx
    cases h
    exact ⟨s₁, w₁, hx, rfl⟩

theorem within_restores {α : Type} {b : Boundary} {x : Action α} {w w' : World} {s : Stop}
    (h : (Action.within b x).run w = .error s w') : w'.boundary = w.boundary := by
  obtain ⟨s₁, w₁, hx, -⟩ := within_stopped h
  rw [Action.within_of_error hx] at h
  cases h
  rfl

variable {n : Nat} {e e' : Entry} {w w' : World} {a : Act} {s : Stop} {site : Site}

/-- A fault in the entry itself is reported at its site, unless it cannot be told. -/
theorem FailsHere.report {f : Fault} (h : FailsHere env ev n e w site (.fault f)) {line : Nat}
    (hb : e.boundary.template = site.template) (hline : line ∈ site.lines) :
    IsReport env ev n e w
      (Action.reported (e.boundary.atLine line) (.failed (.fault f))) := by
  cases hf : f.inWriting? with
  | none =>
    rw [Action.reported_told _ hf]
    exact .placed (b := e.boundary) (.here h hf) hb hline
  | some g =>
    rw [Action.reported_untold _ hf]
    exact .untold h hf

/-- An act that stops in the boundary of its entry is reported at a line it shows. -/
theorem act_report (ha : e.Acts env ev n w a) (hs : a.action.run a.world = .error s w') :
    IsReport env ev (n + 1) e w (Action.reported (w'.boundary.getD e.boundary) s) := by
  obtain ⟨line, hline, hw⟩ := ha.shows
  obtain ⟨hb, hraised⟩ := ha.stays.raises hs
  rw [hb]
  rcases hraised with hraised | ⟨name, here, -, hdeep, -⟩
  · cases hraised with
    | fault f =>
      rw [hw]
      exact (FailsHere.act ha hs (.fault f)).report rfl hline
    | missing name available =>
      have hmissing := FailsHere.act ha hs (.missing name available)
      rw [hw]
      exact .placed (b := e.boundary) (.here hmissing rfl) rfl hline
    | unplaced he => exact .unplaced (TemplateError.failure?_of_stack? he)
    | outOfSteps => exact .outOfSteps (.act ha hs)
  · cases hdeep
    exact .unplaced rfl

/-- What an act enters reports to the boundary of the entry. Only what could not be told there is
reported here, at a line that the act shows. -/
theorem IsReport.around (ha : e.Acts env ev n w a) (he : a.action.run a.world = .ok (some e') w')
    (h : IsReport env ev n e' w' s) {line : Nat} (hline : line ∈ a.line :: a.passed) :
    IsReport env ev (n + 1) e w (Action.reported (e.boundary.atLine line) s) := by
  cases h with
  | outOfSteps h => exact .outOfSteps (.inside ha he h)
  | unplaced herr => exact .unplaced herr
  | placed hfails hb hline => exact .placed (.inside ha he hfails) hb hline
  | untold hfails hg => exact (FailsHere.untold ha he hfails hg).report rfl hline

/-- Where rendering an entry has stopped, a line of the act that made it is shown. -/
theorem shown_behind (ha : e.Acts env ev n w a) (he : a.action.run a.world = .ok (some e') w')
    {w₁ : World} (hrun : (e'.render (part env ev n)).run w' = .error s w₁) :
    ∃ line : Nat, line ∈ a.line :: a.passed ∧ w₁.boundary = some (e.boundary.atLine line) := by
  obtain ⟨line, hline, hw⟩ := ha.shows
  have hkept := within_restores hrun
  exact ⟨line, hline, hkept.trans ((ha.stays.keeps _ _ _ he).trans hw)⟩

/-- However deep the render has gone, what it stops with is reported where it failed. The
induction is on the boundaries that may still be entered. -/
theorem render_report (n : Nat) : ∀ {e : Entry} {w w' : World} {s : Stop},
    (e.render (part env ev n)).run w = .error s w' → IsReport env ev n e w s := by
  induction n with
  | zero =>
    intro e w w' s h
    obtain ⟨s₁, w₁, hrun, rfl⟩ := within_stopped h
    cases hrun
    have hmarked : e.boundary = e.boundary.atLine (0 : Nat) := by
      rw [Boundary.atLine, Int.ofNat_zero, ← e.unmarked]
    have hfails : FailsHere env ev 0 e w _ _ := .entrance e w
    have hreport := hfails.report rfl (List.mem_singleton_self 0)
    rw [← hmarked] at hreport
    exact hreport
  | succ n ih =>
    intro e w w' s h
    obtain ⟨s₁, w₁, hrun, rfl⟩ := within_stopped h
    obtain ⟨a, ha, hstop | ⟨e', w₂, he, hinside⟩⟩ := part_stopped hrun
    · exact act_report ha hstop
    · obtain ⟨line, hline, hw₁⟩ := shown_behind ha he hinside
      rw [hw₁]
      exact (ih hinside).around ha he hline

theorem body_from {K : Template → Prop} {e : Entry} (he : e.From K) {t : Template} {path : String}
    {ns : List Node} (hp : e.part.body? = some (t, path, ns)) : K t ∧ ns ∈ t.tree.bodies := by
  have hpart := he.part
  unfold Part.body? at hp
  split at hp
  · rename_i s hs
    rw [hs] at hpart
    cases hp
    exact hpart
  · rename_i t' ht'
    rw [ht'] at hpart
    split at hp
    · rename_i ns' htree
      cases hp
      refine ⟨hpart, ?_⟩
      rw [htree]
      exact List.mem_singleton_self ns
    · cases hp

theorem acts_lines_pos {n : Nat} {e : Entry} {w : World} {a : Act} (he : e.From Template.IsRead)
    (ha : e.Acts env ev n w a) : ∀ k ∈ a.line :: a.passed, 0 < k := by
  cases ha with
  | body hp hf hm =>
    obtain ⟨hread, hns⟩ := body_from he hp
    exact fun k hk => hread.lines_pos.1 _ hns k (hm.lines_subset hk)
  | layout hp ht =>
    have hpart := he.part
    rw [hp] at hpart
    intro k hk
    rw [List.mem_singleton.mp hk]
    exact Template.IsRead.lines_pos hpart |>.2 _ _ _ ht

theorem FailsAt.lines_pos {n : Nat} {e : Entry} {w : World} {site : Site} {c : Cause}
    (h : FailsAt env ev n e w site c) (he : e.From Template.IsRead) :
    ∀ t line passed, site = .construct t line passed → ∀ k ∈ line :: passed, 0 < k := by
  induction h with
  | here h htold =>
    cases h with
    | entrance e w => exact nofun
    | act ha hs hc =>
      rintro _ _ _ ⟨⟩
      exact acts_lines_pos he ha
    | untold ha hrun h hg =>
      rintro _ _ _ ⟨⟩
      exact acts_lines_pos he ha
  | inside ha hrun h ih =>
    refine ih ((ha.leads hrun).from (fun _ _ _ _ _ hload => ?_) he)
    exact (Environment.loadUnder_ok hload).2

end Failing

namespace RenderFailure

/-- The failure is reported against this template. -/
def Names (f : RenderFailure) (template : Option String) : Prop :=
  (nonEmpty f.template).getD "<template>" = (nonEmpty template).getD "<template>"

/-- The failure is reported at the line of the site, which after a pass may be one of its body;
for a template that could not be entered no line is reported. -/
def At (f : RenderFailure) : Site → Prop
  | .construct _ line passed => ∃ k ∈ line :: passed, f.line = some (k : Int)
  | .entrance _ => f.line = none

end RenderFailure

namespace Template

/-- What a render of the template enters. -/
def entry (t : Template) (env : Environment) (data : Ref) : Entry :=
  ⟨.page t.name t.filename (some t.source.text) env.limit, .whole t, data, [], rfl⟩

/-- The data of a render, in a place of its own. -/
def startData (env : Environment) (data : Value) (more : Bindings) : Action Ref := do
  let d ← renderData env data more
  Action.evaluate (Eval.newData d)

theorem renderBy_eq (ev : Evaluator) (t : Template) (env : Environment) (data : Value)
    (more : Bindings) : t.renderBy ev env data more = (do
      let r ← startData env data more
      (t.entry env r).render (part env ev env.host.room)) := by
  unfold renderBy startData
  simp only [bind_assoc]
  rfl

theorem startData_stopped {env : Environment} {data : Value} {more : Bindings} {w w' : World}
    {s : Stop} (h : (startData env data more).run w = .error s w') : ∃ f, s = .failed (.fault f) := by
  rcases Action.bind_error h with h | ⟨d, w₁, _, h⟩
  · unfold renderData at h
    split at h
    · cases h
    · cases h
    · cases h
      exact ⟨_, rfl⟩
  · cases h

end Template

end Stencil
