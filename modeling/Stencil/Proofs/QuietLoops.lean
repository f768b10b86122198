import Mathlib.Data.List.Forall2
import Stencil.Proofs.CarriedRuns
import Stencil.Proofs.Emission
import Stencil.Proofs.TwinRenders

/-!
# Loops that nothing asks

A loop may count its passes though nothing inside of it mentions `loop`. Its body cannot tell: two
runs of which only the first has such loops count end alike, and what sets them apart is but a
variable that no name means.
-/

namespace Stencil

open Render

open Text (Position)

variable {differ : Prop} {f : Ref} {p : Position} {frames : Array Frame}

/-- If the runs `differ`, the loops at `p` in the frame `f` may count their passes in the first run
only. -/
def Tally.muted (differ : Prop) (f : Ref) (p : Position) : Tally where
  loops r := List.Forall₂ fun l l' =>
    l' = l ∨ (differ ∧ r = f ∧ l.position = p) ∧ l' = { l with counted := false }
  frames b b' := f < b.size ∧ b'.size = b.size ∧
    ∀ r x, ¬ (differ ∧ r = f ∧ x = .ofLoop p "loop") → (b'.getD r []).get? x = (b.getD r []).get? x
  apart r := differ ∧ r = f
  held r := r = f
  shared r x := ¬ (differ ∧ r = f ∧ x = .ofLoop p "loop")
  refl r outer := List.forall₂_same.mpr fun _ _ => .inl rfl
  cons loop h := .cons (.inl rfl) h
  together hr h := by
    have heq : List.Forall₂ (· = ·) _ _ := h.imp fun l l' hl =>
      (hl.resolve_right fun hmuted => hr ⟨hmuted.1.1, hmuted.1.2.1⟩).symm
    exact (List.forall₂_eq_eq_eq ▸ heq).symm
  shared_own r name h := Variable.noConfusion h.2.2
  shared_of x hr h := hr ⟨h.1, h.2.1⟩
  size_eq h := h.2.1
  agree h hx := h.2.2 _ _ hx
  push b h := by
    refine ⟨?_, ?_, fun r x hx => ?_⟩
    · rw [Array.size_push]
      exact Nat.lt_succ_of_lt h.1
    · rw [Array.size_push, Array.size_push, h.2.1]
    · rw [Renaming.getD_push, Renaming.getD_push, h.2.1]
      split
      · rfl
      · exact h.2.2 r x hx
  bind r x v h := by
    refine ⟨?_, ?_, fun r' x' hx => ?_⟩
    · rw [Array.size_modify]
      exact h.1
    · rw [Array.size_modify, Array.size_modify, h.2.1]
    · rw [Renaming.get?_modify, Renaming.get?_modify, h.2.1]
      split
      · rfl
      · exact h.2.2 r' x' hx
  apart_held h := h.2
  made h hr heq := absurd h.1 (Nat.not_lt.mpr (heq ▸ hr))

/-- Two runs of which, if they `differ`, the second may have the loops at `p` of the frame `f` not
count their passes. Inside of them `loop` is no name to be come to. -/
def Leeway.muted (differ : Prop) (f : Ref) (p : Position) : Leeway where
  modes mode mode' := mode' = mode
  allows tracked _ frame loops _ e :=
    tracked = false ∧ (frame = f → (∃ l ∈ loops, l.position = p) → e ≠ .name "loop")
  data d d' := d' = d
  offers := False
  lost _ _ := False
  tally := .muted differ f p
  size_eq := size_of_same
  push := push_of_same
  names h := names_of_untracked h.1
  lost_inside h := h
  lost_told := told_of_never

section Meeting

variable {s s' : Scope}

/-- Both runs find the same loop for a name that is not `loop`. -/
theorem muted_loopOf? (hs : s.Twin (.muted differ f p) s') {id : String}
    (hid : s.frame = f → (∃ l ∈ s.loops, l.position = p) → id ≠ "loop") :
    (s'.loopOf? id).map (·.position) = (s.loopOf? id).map (·.position) := by
  obtain @⟨mode, loops, -, hloops⟩ := hs
  replace hloops : List.Forall₂ (fun l l' => l' = l ∨
      (differ ∧ s.frame = f ∧ l.position = p) ∧ l' = { l with counted := false }) s.loops loops :=
    hloops
  unfold Scope.loopOf?
  dsimp only
  generalize s.loops = outer at hloops hid
  induction hloops with
  | nil => rfl
  | @cons l l' outer outer' hl hrest ih =>
    have hih := ih fun hf ⟨m, hm, hp⟩ => hid hf ⟨m, List.mem_cons_of_mem _ hm, hp⟩
    have hfound : (l'.names.contains id || (l'.counted && id = "loop")) =
        (l.names.contains id || (l.counted && id = "loop")) ∧ l'.position = l.position := by
      rcases hl with rfl | ⟨⟨-, hf, hp⟩, rfl⟩
      · exact ⟨rfl, rfl⟩
      · have hne := hid hf ⟨l, List.mem_cons_self, hp⟩
        simp [hne]
    rw [List.find?_cons, List.find?_cons, hfound.1]
    split
    · exact congrArg some hfound.2
    · exact hih

/-- The rule for names that is in use is its own twin where `loop` is not asked for. -/
theorem lookup_muted (hs : s.Twin (.muted differ f p) s') {id : String}
    (hid : s.frame = f → (∃ l ∈ s.loops, l.position = p) → id ≠ "loop") :
    Twin (.muted differ f p) Same frames (s.lookup id) (s'.lookup id) := by
  refine lookup_twin_of hs id (muted_loopOf? hs hid) (fun l hl => ?_) fun _ _ => ?_
  · rintro ⟨-, hf, hx⟩
    injection hx with hp hloop
    exact hid hf ⟨l, List.mem_of_find?_eq_some hl, hp⟩ hloop
  · obtain ⟨rfl, -⟩ := hs
    intro n h h' ht _
    exact dataValue_joined (s := s) ht (congrArg (Array.getD · s.data default) ht.data) n

theorem muted_meets : (Leeway.muted differ f p).Meets Scope.lookup Scope.lookup where
  name hs hf := lookup_muted hs fun hframe hloops => fun hid =>
    hf.allowed.2 hframe hloops (congrArg Expr.name hid)
  member v label hmode := by
    cases hmode
    exact member_alike _ v label

end Meeting

theorem standard_muted : Evaluator.standard.Paired (.muted differ f p) Evaluator.standard := by
  have hlook : (Leeway.muted differ f p).Meets Scope.lookup Scope.lookup := muted_meets
  have hpaired := Evaluator.runBy_paired hlook Evaluator.deepestStep
  rw [Evaluator.runBy_lookup] at hpaired
  exact hpaired

/-- Other bodies have frames of their own, where both runs are told the same. -/
theorem muted_coupled (differ : Prop) (f : Ref) (p : Position) (env : Environment) :
    Render.Coupled (.muted differ f p) env env.lenient (fun _ _ => True) Evaluator.standard
      Evaluator.standard where
  mode := rfl
  paired := standard_muted
  standard := standard_muted
  covers := ⟨fun _ => ⟨false, fun _ hframe _ _ _ _ => ⟨rfl, fun heq => absurd heq hframe⟩⟩,
    fun _ _ _ => trivial, fun _ _ => trivial⟩

theorem Sections.From.any {K : Template → Prop} {sections : Sections} (h : sections.From K) :
    sections.From fun _ => True := fun x hx => ⟨trivial, (h x hx).2⟩

theorem reach_alike {l : Leeway} {env : Environment}
    (hc : Render.Coupled l env env.lenient (fun _ _ => True) Evaluator.standard Evaluator.standard)
    (hmodes : ∀ mode, l.modes mode mode) (calls n : Nat) (data : Ref) {sections : Sections}
    (hsections : sections.From fun _ => True) :
    Reach.Twin l
      (around env Evaluator.standard calls (part env Evaluator.standard n) data sections)
      (around env Evaluator.standard calls (part env Evaluator.standard n) data sections) := by
  have hparts := part_alike hc n
  have htwin : Sections.Twin l (fun _ _ => True) data sections sections := by
    intro name
    cases hb : sections.lookup name with
    | none => exact .none
    | some b => exact .some (.told (hsections.lookup hb).2 trivial (hmodes _))
  exact ⟨hc.paired, rfl, fun name fallback => yieldTo_alike hparts htwin name fallback,
    fun name v => includePartial_alike hparts hc calls name v⟩

theorem reach_muted (differ : Prop) (f : Ref) (p : Position) (env : Environment) (calls n : Nat)
    (data : Ref) {sections : Sections} (hsections : sections.From fun _ => True) :
    Reach.Twin (.muted differ f p)
      (around env Evaluator.standard calls (part env Evaluator.standard n) data sections)
      (around env Evaluator.standard calls (part env Evaluator.standard n) data sections) :=
  reach_alike (muted_coupled differ f p env) (fun _ => rfl) calls n data hsections

/-- The code in a heap is for frames that are there. -/
def Heap.IsFramed (h : Heap) : Prop :=
  ∀ c ∈ h.cells, ∀ s, c.scope? = some s → s.frame < h.frames.size

/-- Code that was there before the frame `f` was made is not for it. -/
theorem Heap.IsFramed.twin {h h' : Heap} (hh : h.IsFramed) (hcells : h'.cells = h.cells)
    (hf : h.frames.size ≤ f) (hf' : f < h'.frames.size) : h'.Twin (.muted differ f p) h' where
  size := rfl
  cells r c c' hc hc' := by
    cases hc.symm.trans hc'
    refine .of_allowed (fun _ => rfl) nofun fun s hs _ _ => ⟨rfl, fun heq => ?_⟩
    have hlt := hh c (Array.mem_of_getElem? (hcells ▸ hc)) s hs
    exact absurd hlt (Nat.not_lt.mpr (heq ▸ hf))
  frames := ⟨hf', rfl, fun _ _ _ => rfl⟩
  data := rfl

/-- What may be come to does not hang on whether the runs differ. -/
theorem Cell.Twin.differing {c c' : Cell} (h : c.Twin (.muted False f p) frames c') :
    c.Twin (.muted differ f p) frames c := by
  cases h with
  | inert hc => exact .inert hc
  | @function tracked c s hc hs =>
    have hfits : c.Fits (.muted differ f p) tracked frames := ⟨hc.admits, hc.ready, nofun⟩
    exact .function hfits (.told (s := c.scope) rfl ((Tally.muted differ f p).refl _ _))
  | @generator tracked c c' hround =>
    cases hround with
    | told hc hs =>
      have hfits : c.Fits (.muted differ f p) tracked frames (c.iterators.length - 1) :=
        ⟨hc.own, hc.admits, hc.names, hc.ready, nofun⟩
      exact .generator (.told hfits (.told (s := c.scope) rfl ((Tally.muted differ f p).refl _ _)))

theorem Heap.Twin.differing {h : Heap} (ht : h.Twin (.muted False f p) h) :
    h.Twin (.muted differ f p) h where
  size := rfl
  cells r c c' hc hc' := by
    cases hc.symm.trans hc'
    exact (ht.cells r c c hc hc).differing
  frames := ⟨ht.frames.1, rfl, fun _ _ _ => rfl⟩
  data := rfl

theorem World.Twin.marked {l : Leeway} {w w' : World} (h : w.Twin l w') (line : Nat) :
    (w.marked line).Twin l (w'.marked line) where
  heap := h.heap
  boundary := congrArg (Option.map fun b : Boundary => b.atLine line) h.boundary
  notices := h.notices

/-- The world is its own twin, and the frames have grown from some. -/
structure World.Kept (l : Leeway) (frames : Array Frame) (w : World) : Prop where
  twin : w.Twin l w
  grows : Grows frames w.heap.frames

theorem World.Kept.after {l : Leeway} {α : Type} {x : Action α} {w w₁ : World} {a : α}
    {V : Array Frame → Array Frame → α → α → Prop} (hw : w.Kept l frames)
    (hx : ∀ frames', Grows frames frames' → Alike l (V frames') frames' x x)
    (h : x.run w = .ok a w₁) : w₁.Kept l frames := by
  have hmet := hx _ hw.grows w w hw.twin (.refl _)
  rw [h] at hmet
  cases hmet with
  | ok hw₁ hg _ => exact ⟨hw₁, hw.grows.trans hg⟩

theorem World.Kept.marked {l : Leeway} {w : World} (hw : w.Kept l frames) (line : Nat) :
    (w.marked line).Kept l frames := ⟨hw.twin.marked line, hw.grows⟩

section Passes

variable {s : Scope} {reach : Reach} (hr : Reach.Twin (.muted True s.frame p) reach reach)
  (houter : ∀ l ∈ s.loops, l.position ≠ p)

include hr houter

omit hr in
theorem muted_outside (e : Expr) : (Leeway.muted True s.frame p).Fits false frames s e :=
  ⟨fun _ _ _ => ⟨rfl, fun _ ⟨l, hl, hp⟩ => absurd hp (houter l hl)⟩, nofun, nofun⟩

theorem evalCode_muted (code : Code) :
    Alike (.muted True s.frame p) Same frames (evalCode reach s code) (evalCode reach s code) :=
  evalCode_alike hr (.told (s := s) rfl ((Tally.muted True s.frame p).refl _ _)) code
    (muted_outside houter code.expr)

/-- In the first run the loop counts, as its body is `more` than the one that does not mention
`loop`. -/
theorem pass_muted (hlocals : s.locals = []) (target : Code) {body : List Node}
    (more : List Node) (hbody : Node.mention "loop" body = false) (v : Value) :
    Alike (.muted True s.frame p) (Such fun frames' _ => s.frame < frames.size →
      ∀ id ∈ target.expr.storedNames, Assigned frames' s.frame (.ofLoop p id)) frames
      (do
        assigned reach s p target more v
        nodes reach (innerScope s p target more) #[] body)
      (itemPass reach s p target body v) := by
  refine .bindSuch (evaluate_alike hr (Evaluator.assign_twin hr.ev (.told (s := s) rfl
    ((Tally.muted True s.frame p).refl _ _)) s.frame (.ofLoop p) target.expr v frames
    fun e _ => muted_outside houter e)) fun frames₁ _ hg hassigned => ?_
  have hloop : { loopScope p target more with counted := false } = loopScope p target body := by
    simp [loopScope, hbody]
  have hinner : (innerScope s p target more).Twin (.muted True s.frame p)
      (innerScope s p target body) :=
    .told (s := innerScope s p target more) rfl (.cons (.inr ⟨⟨trivial, rfl, rfl⟩, hloop.symm⟩)
      ((Tally.muted True s.frame p).refl s.frame s.loops))
  have hfits : Node.Fits (.muted True s.frame p) false frames₁ (innerScope s p target more)
      body := by
    refine ⟨hlocals, fun loops whole hw context e he => ⟨rfl, fun _ _ => ?_⟩, fun _ => hbody,
      nofun, nofun⟩
    rintro rfl
    exact Bool.false_ne_true (hbody.symm.trans (hw.mention he))
  refine (nodes_alike hr body #[] hinner hfits).imp fun frames₂ _ _ hg₂ h =>
    ⟨h, fun hf id hid => ?_⟩
  exact hg₂.assigned _ _ (hassigned hf id hid)

end Passes

end Stencil
