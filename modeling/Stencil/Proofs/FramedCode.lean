import Stencil.Proofs.ExactRuns
import Stencil.Proofs.QuietPlaces
import Stencil.Proofs.Surroundings

/-!
# Code is for frames that are there

Functions and generators are made in scopes of frames that were made before. So whatever a render
does, and whatever it enters, all code it leaves behind is for frames that are there.
-/

namespace Stencil

open Render

open Text (Position)

variable {frames : Array Frame} {h : Heap}

/-- Both runs are the same, and all code is for frames that are there. -/
def Leeway.framing : Leeway where
  modes mode mode' := mode' = mode
  allows tracked _ _ _ _ _ := tracked = false
  data d d' := d' = d
  offers := False
  lost _ _ := False
  framed := True
  size_eq := size_of_same
  push := push_of_same
  names := names_of_untracked
  lost_inside h := h
  lost_told := told_of_never

theorem Leeway.framing_isExact : Leeway.framing.IsExact where
  tally := rfl
  modes h := h
  data h := h
  offers := id

theorem Heap.IsFramed.kept {w : World} (hw : w.heap.IsFramed) : w.Kept .framing w.heap.frames := by
  refine ⟨⟨⟨rfl, fun r c c' hc hc' => ?_, rfl, rfl⟩, rfl, rfl⟩, .refl _⟩
  cases hc.symm.trans hc'
  exact .of_allowed (fun _ => rfl) (fun _ => hw c (Array.mem_of_getElem? hc)) fun _ _ _ _ => rfl

theorem Cell.Twin.framed {c c' : Cell} {s : Scope} (h : c.Twin .framing frames c')
    (hs : c.scope? = some s) : s.frame < frames.size := by
  cases h with
  | inert hc =>
    cases c with
    | function => exact hc.elim
    | iterator cursor =>
      cases cursor with
      | comprehension => exact hc.elim
      | _ => cases hs
    | _ => cases hs
  | function hc _ =>
    cases hs
    exact hc.framed trivial
  | generator hround =>
    cases hround with
    | told hc _ =>
      cases hs
      exact hc.framed trivial

theorem World.Kept.isFramed {w : World} (hw : w.Kept .framing frames) : w.heap.IsFramed := by
  intro c hc s hs
  obtain ⟨r, hr⟩ := Array.mem_iff_getElem?.mp hc
  exact (hw.twin.heap.cells r c c hr hr).framed hs

theorem lookup_framing (s : Scope) (id : String) :
    Twin .framing Same frames (s.lookup id) (s.lookup id) := by
  refine lookup_twin (.told (s := s) rfl rfl) id nofun fun _ _ => ?_
  intro n h h' ht _
  cases ht.eq_of_exact Leeway.framing_isExact
  exact dataValue_joined ht rfl n

theorem framing_meets : Leeway.framing.Meets Scope.lookup Scope.lookup where
  name hs _ := by
    cases hs.eq_of_exact Leeway.framing_isExact
    exact lookup_framing _ _
  member v label hmode := by
    cases hmode
    exact member_alike _ v label

theorem standard_framing : Evaluator.standard.Paired .framing Evaluator.standard := by
  have hpaired := Evaluator.runBy_paired framing_meets Evaluator.deepestStep
  rw [Evaluator.runBy_lookup] at hpaired
  exact hpaired

theorem framing_coupled (env : Environment) : Render.Coupled .framing env env.lenient
    (fun _ _ => True) Evaluator.standard Evaluator.standard where
  mode := rfl
  paired := standard_framing
  standard := standard_framing
  covers := ⟨fun _ => ⟨false, fun _ _ _ _ _ _ => rfl⟩, fun _ _ _ => trivial, fun _ _ => trivial⟩

namespace Render

variable {env : Environment} {n : Nat} {e e' : Entry} {t u : Template} {w w₀ w₁ w' : World}

section Entries

variable {l : Leeway} {mode : Bool} {may : Ref → Template → Prop} {ev ev' : Evaluator}
  {α : Type}

/-- Finding the section for a place, a partial or a layout is its own twin. -/
theorem sectionEntry_alike (data : Ref) (sections : Sections) (name : String) :
    Alike l (fun _ _ _ => True) frames (sectionEntry data sections name)
      (sectionEntry data sections name) := by
  unfold sectionEntry
  cases sections.lookup name with
  | none => exact .deliver fun _ _ => trivial
  | some s => exact .bind .here fun _ here _ => .deliver fun _ _ => trivial

theorem givenData_alike {tracked : Bool} {reach : Reach} {s : Scope} {ns : List Node} {p : Position}
    {name : String} {given : Option Code} (hr : Reach.Twin l reach reach) (hs : s.Twin l s)
    (hf : Node.Fits l tracked frames s (.including p name given :: ns)) :
    Alike l Same frames (givenData reach s given) (givenData reach s given) := by
  cases given with
  | none => exact evaluate_alike hr (Plain.newDict #[]).twin
  | some code => exact evalCode_alike hr hs code (hf.expr (.given List.mem_cons_self))

variable (hc : Coupled l env env.lenient may ev ev')

include hc

theorem partialEntry_alike (calls : Nat) (name : String) (v : Value) :
    Alike l (fun _ _ _ => True) frames (partialEntry env calls name v)
      (partialEntry env calls name v) := by
  unfold partialEntry
  split
  · refine .bind .here fun _ here _ => .bind (.orReject _) fun _ _ _ => ?_
    refine .bindWith (Alike.loadUnder hc.standard env hc.mode calls name) fun _ t t' _ ht => ?_
    refine .heap (fun h h' l => ?_) fun h => ?_
    · rw [l.dictEntries]
    · exact .bindSuch (.evaluateUnder calls (.newData _)) fun _ data _ _ =>
        .deliver fun _ _ => trivial
  · exact (Alike.throw (.same _) : Alike l Same _ _ _).imp fun _ _ _ _ _ => trivial

theorem layoutEntry_alike (calls : Nat) (data : Ref) (sections : Sections) (name : String) :
    Alike l (fun _ _ _ => True) frames (layoutEntry env calls data sections name)
      (layoutEntry env calls data sections name) := by
  refine .bind .here fun _ here _ => ?_
  refine .bind (.orReject _) fun _ _ _ => .bind (.orReject _) fun _ _ _ => ?_
  exact .bindWith (Alike.loadUnder hc.standard env hc.mode calls name) fun _ t t' _ ht =>
    .deliver fun _ _ => trivial

end Entries

section Entered

variable {path : String} {ns ns' : List Node} {frame : Ref} {rs : List Round} {s : Scope}
  (he : e.From Template.IsRead) (hframed : w.heap.IsFramed)
  (hf : ((e.reach env Evaluator.standard n).evaluate (Eval.newFrame [])).run
    { w with boundary := some e.boundary } = .ok frame w₁)

include he hframed hf

/-- At all places of a body code is for frames that are there, and what comes next may run. -/
theorem At.framed (h : At (e.reach env Evaluator.standard n)
      ⟨e.data, u.lenient, frame, [], [], path⟩ ns w₁ rs s ns' w') :
    w'.Kept .framing w₁.heap.frames ∧ Node.Fits .framing false w₁.heap.frames s ns' := by
  have hbegun : World.Kept .framing w.heap.frames { w with boundary := some e.boundary } :=
    ⟨⟨hframed.kept.twin.heap, rfl, rfl⟩, .refl _⟩
  have hreach : Reach.Twin .framing (e.reach env Evaluator.standard n)
      (e.reach env Evaluator.standard n) :=
    reach_alike (framing_coupled env) (fun _ => rfl) _ n e.data he.sections.any
  have hkept := hbegun.after (fun _ _ => evaluate_alike hreach (.newFrame [])) hf
  have hlt : frame < w₁.heap.frames.size := by
    have hheap := evaluate_inv hf
    injection hheap with hframe hheap
    rw [← hheap, ← hframe]
    dsimp only
    rw [Array.size_push]
    exact Nat.lt_succ_self _
  have hfits : Node.Fits .framing false w₁.heap.frames
      ⟨e.data, u.lenient, frame, [], [], path⟩ ns :=
    ⟨rfl, fun _ _ _ _ _ _ => rfl, nofun, nofun, fun _ => hlt⟩
  exact ⟨h.kept hreach rfl hfits id ⟨hkept.twin, .refl _⟩, h.isPart.fits hfits id⟩

end Entered

/-- What is entered leaves code for frames that are there. -/
theorem enters_framed {hop : Hop} (he : e.From Template.IsRead) (hframed : w.heap.IsFramed)
    (h : e.Enters env Evaluator.standard n w hop w₁ e' w') : w'.heap.IsFramed := by
  have hreach : Reach.Twin .framing (e.reach env Evaluator.standard n)
      (e.reach env Evaluator.standard n) :=
    reach_alike (framing_coupled env) (fun _ => rfl) _ n e.data he.sections.any
  cases h with
  | @filled _ _ _ _ _ m _ _ _ _ hp hf hm hown hentry =>
    obtain ⟨own, line, passed, world⟩ := m
    cases hown
    rcases hm.isDone .start with hendless | ⟨rs, hdoes⟩
    · cases hendless
    · cases hdoes with
      | place h =>
        obtain ⟨hkept, -⟩ := At.framed he hframed hf h
        exact ((hkept.marked _).after (fun _ _ => sectionEntry_alike _ _ _) hentry).isFramed
  | @included _ _ _ _ _ _ m _ _ _ _ _ _ hp hf hm hown hv hentry =>
    obtain ⟨own, line, passed, world⟩ := m
    cases hown
    rcases hm.isDone .start with hendless | ⟨rs, hdoes⟩
    · cases hendless
    · cases hdoes with
      | inclusion h =>
        obtain ⟨hkept, hfits⟩ := At.framed he hframed hf h
        have hkept₂ := (hkept.marked _).after
          (fun _ hg => givenData_alike hreach (.told rfl rfl) (hfits.mono hg)) hv
        exact (hkept₂.after (fun _ _ => partialEntry_alike (framing_coupled env) _ _ _)
          hentry).isFramed
  | @extended _ p _ _ _ _ _ _ hentry =>
    have hbegun : World.Kept .framing w.heap.frames { w with boundary := some e.boundary } :=
      ⟨⟨hframed.kept.twin.heap, rfl, rfl⟩, .refl _⟩
    exact ((hbegun.marked _).after (fun _ _ => layoutEntry_alike (framing_coupled env) _ _ _ _)
      hentry).isFramed

/-- Wherever a render comes to, code is for frames that are there. The induction is on the hops. -/
theorem Reaches.framed (ht : t.IsRead) {r : Ref} (hs : w₀.heap.IsSound) (henv : Suits w₀.heap env)
    (hframed : w₀.heap.IsFramed) {hops : List Hop}
    (h : Reaches env Evaluator.standard (t.entry env r) w₀ hops n e w) : w.heap.IsFramed := by
  induction h with
  | start => exact hframed
  | hop h he ih =>
    exact enters_framed (h.kept (standard_runsSafely env) ht hs henv).2.2 ih he

theorem startData_framed {data : Value} {more : Bindings} {r : Ref} (hframed : w.heap.IsFramed)
    (h : (Template.startData env data more).run w = .ok r w') : w'.heap.IsFramed := by
  obtain ⟨d, w₁, hd, hnew⟩ := Action.bind_ok h
  have hw₁ : w₁ = w := by
    unfold Template.renderData at hd
    split at hd <;> cases hd <;> rfl
  subst hw₁
  have hheap : w'.heap.cells = w₁.heap.cells ∧ w'.heap.frames = w₁.heap.frames := by
    cases hnew
    exact ⟨rfl, rfl⟩
  rw [Heap.IsFramed, hheap.1, hheap.2]
  exact hframed

end Render

end Stencil
