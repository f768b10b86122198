import Stencil.Proofs.LexicalScope
import Stencil.Proofs.SafeRenders

/-!
# What `loop` means

Where the variable of a loop holds the loop when an evaluation begins, its name means the loop
throughout the evaluation, for nothing that is evaluated gives such a variable another value.
-/

namespace Stencil

variable {f r : Ref} {p : Text.Position} {h : Heap}

namespace Scope

/-- The name is that of the loop at a position: it is `loop`, in this frame, and this loop is the
innermost that gives it a meaning. -/
def isLoopAt (f : Ref) (p : Text.Position) (s : Scope) (id : String) : Bool :=
  id = "loop" && s.frame = f && !s.locals.any (·.active.contains id) &&
    (s.loopOf? id).any (·.position = p)

def knowing (f : Ref) (p : Text.Position) (r : Ref) (s : Scope) (id : String) : Eval Value :=
  if s.isLoopAt f p id then return .loop r else s.lookup id

def doubt : Halt := .undefinedName "loop" ["loop"]

/-- Names are looked up, but evaluation stops where the loop at a position has another name. -/
def checking (f : Ref) (p : Text.Position) (r : Ref) (s : Scope) (id : String) : Eval Value :=
  if s.isLoopAt f p id then do
    let frame ← Eval.frame f
    if (frame.get? (.ofLoop p "loop")).bind Value.loop? = some r then return .loop r
    else throw doubt
  else s.lookup id

variable {s : Scope} {id : String}

theorem lookup_of_isLoopAt (hs : s.isLoopAt f p id = true) {v : Value}
    (hv : h.current f (.ofLoop p "loop") = some v) (n : Nat) :
    (s.lookup id).run n h = .ok v h := by
  unfold isLoopAt at hs
  simp only [Bool.and_eq_true, decide_eq_true_eq, Bool.not_eq_true'] at hs
  obtain ⟨⟨⟨rfl, rfl⟩, hlocals⟩, hloop⟩ := hs
  obtain ⟨l, hl, hposition⟩ := (Option.any_eq_true ..).mp hloop
  unfold lookup
  rw [hlocals, hl]
  cases of_decide_eq_true hposition
  exact Eval.run_variable hv n

theorem loop?_eq_some {v : Value} (hv : v.loop? = some r) : v = Value.loop r := by
  cases v with
  | loop q =>
    cases hv
    rfl
  | _ => cases hv

theorem checking_run (hs : s.isLoopAt f p id = true) (n : Nat) (h : Heap) :
    (s.checking f p r id).run n h =
      if (h.current f (.ofLoop p "loop")).bind Value.loop? = some r then .ok (.loop r) h
      else .error doubt h := by
  unfold checking
  rw [if_pos hs, Render.frame_bind_run]
  unfold Heap.current
  split
  · rfl
  · rfl

theorem checking_eq_lookup (hs : s.isLoopAt f p id ≠ true) :
    s.checking f p r id = s.lookup id := if_neg hs

theorem checking_cases (hs : s.isLoopAt f p id = true) (n : Nat) (h : Heap) :
    (h.current f (.ofLoop p "loop") = some (.loop r) ∧
      (s.checking f p r id).run n h = .ok (.loop r) h) ∨
    (s.checking f p r id).run n h = .error doubt h := by
  rw [checking_run hs]
  split
  · rename_i hloop
    obtain ⟨v, hv, hloop⟩ := Option.bind_eq_some_iff.mp hloop
    exact .inl ⟨hv.trans (congrArg some (loop?_eq_some hloop)), rfl⟩
  · exact .inr rfl

theorem checking_refuses_or_looks_up (s : Scope) (id : String) (n : Nat) (h : Heap) :
    (s.checking f p r id).run n h = (s.lookup id).run n h ∨
      ∃ h', (s.checking f p r id).run n h = .error doubt h' := by
  by_cases hs : s.isLoopAt f p id = true
  · rcases checking_cases hs n h with ⟨hv, hrun⟩ | hrun
    · exact .inl (hrun.trans (lookup_of_isLoopAt hs hv n).symm)
    · exact .inr ⟨h, hrun⟩
  · exact .inl (by rw [checking_eq_lookup hs])

theorem checking_refuses_or_knows (s : Scope) (id : String) (n : Nat) (h : Heap) :
    (s.checking f p r id).run n h = (s.knowing f p r id).run n h ∨
      ∃ h', (s.checking f p r id).run n h = .error doubt h' := by
  unfold knowing
  by_cases hs : s.isLoopAt f p id = true
  · rw [if_pos hs]
    rcases checking_cases hs n h with ⟨-, hrun⟩ | hrun
    · exact .inl hrun
    · exact .inr ⟨h, hrun⟩
  · rw [if_neg hs, checking_eq_lookup hs]
    exact .inl rfl

end Scope

theorem doubt_ne_fault : ∀ f, Scope.doubt ≠ .fault f := nofun

open Scope (checking knowing doubt)

theorem checking_paired_lookup (n : Nat) : (Evaluator.runBy (checking f p r) n).Paired
    (.refusing doubt doubt_ne_fault) (Evaluator.runBy Scope.lookup n) :=
  Evaluator.runBy_paired
    (refusing_meets Scope.checking_refuses_or_looks_up lookup_refusing) n

theorem knowing_refusing {frames : Array Frame} (s : Scope) (id : String) :
    Twin (.refusing doubt doubt_ne_fault) Same frames (s.knowing f p r id)
      (s.knowing f p r id) := by
  unfold knowing
  split
  · exact .pure _
  · exact lookup_refusing s id

theorem checking_paired_knowing (n : Nat) : (Evaluator.runBy (checking f p r) n).Paired
    (.refusing doubt doubt_ne_fault) (Evaluator.runBy (knowing f p r) n) :=
  Evaluator.runBy_paired
    (refusing_meets Scope.checking_refuses_or_knows knowing_refusing) n

/-- All may be done but to give the variable of the loop another value, or to doubt it. -/
def Licence.keeping (h : Heap) (f : Ref) (p : Text.Position) : Licence where
  start := h
  moves _ := True
  asks _ := False
  binds r x := ¬ (r = f ∧ x = .ofLoop p "loop")
  own _ _ heq := nomatch heq.2
  bars halt := halt = doubt
  barred hbars := ⟨"loop", ["loop"], hbars, List.mem_singleton_self _⟩

section Kept

variable (hf : f < h.frames.size) (hv : h.current f (.ofLoop p "loop") = some (.loop r))

include hf hv

/-- Wherever an evaluation comes to the name, its variable still holds the loop. -/
theorem checking_safe {h' : Heap} {s : Scope} {id : String} :
    Safe (Licence.keeping h f p) h' (s.checking f p r id) := by
  by_cases hs : s.isLoopAt f p id = true
  · intro hsound hled n
    have hbinds : ¬ (Licence.keeping h f p).binds f (.ofLoop p "loop") := fun hnot =>
      hnot ⟨rfl, rfl⟩
    have hv' : h'.current f (.ofLoop p "loop") = some (.loop r) :=
      (hled.values hf hbinds).trans hv
    rw [Scope.checking_run hs, hv']
    have hloop : (some (Value.loop r)).bind Value.loop? = some r := rfl
    rw [if_pos hloop]
    exact .ok (.refl _ _) hsound (hsound.values hv')
  · rw [Scope.checking_eq_lookup hs]
    exact .scopeLookup

theorem checking_isSafe (n : Nat) :
    (Evaluator.runBy (checking f p r) n).IsSafe (Licence.keeping h f p) :=
  Evaluator.runBy_isSafe (fun _ => trivial) (checking_safe hf hv) n

end Kept

/-- Where the check is always passed, looking up and knowing come to the same. -/
theorem looking_up_is_knowing {α : Type} [Refers α] {x y z : Eval α} (hs : h.IsSound)
    (hx : Safe (Licence.keeping h f p) h x)
    (hy : ∀ frames, Twin (.refusing doubt doubt_ne_fault) Same frames x y)
    (hz : ∀ frames, Twin (.refusing doubt doubt_ne_fault) Same frames x z) (n : Nat) :
    z.run n h = y.run n h := by
  have hnot {h' : Heap} : x.run n h ≠ .error doubt h' := by
    intro hrun
    have hends := hx hs (.refl _ _) n
    rw [hrun] at hends
    cases hends with
    | error _ _ hhalt => exact hhalt rfl
  rcases Twin.refused_or_eq hy n h with heq | ⟨h', hrun⟩
  · rcases Twin.refused_or_eq hz n h with heq' | ⟨h', hrun⟩
    · exact heq'.symm.trans heq
    · exact absurd hrun hnot
  · exact absurd hrun hnot

/-- In whatever is evaluated from the heap on, the name of the loop at a position means `r`:
evaluation that knows this does the same. -/
structure Heap.Denotes (h : Heap) (f : Ref) (p : Text.Position) (r : Ref) : Prop where
  eval : ∀ s e n, ((Evaluator.runBy (knowing f p r) Evaluator.deepestStep).eval s e).run n h =
    (Evaluator.standard.eval s e).run n h
  call : ∀ g args keywords n, Suits h g → Suits h args → Suits h keywords →
    ((Evaluator.runBy (knowing f p r) Evaluator.deepestStep).call g args keywords).run n h =
      (Evaluator.standard.call g args keywords).run n h
  next : ∀ it n, Suits h it →
    ((Evaluator.runBy (knowing f p r) Evaluator.deepestStep).next it).run n h =
      (Evaluator.standard.next it).run n h
  /-- So it is in the targets of other loops. -/
  assigned : ∀ s l target v n, l.position ≠ p → Suits h v →
    (Render.bindTarget (Evaluator.runBy (knowing f p r) Evaluator.deepestStep) s l target v).run n
        h =
      (Render.bindTarget Evaluator.standard s l target v).run n h

/-- A loop is meant by its name if its variable holds it. -/
theorem denotes_of_current (hs : h.IsSound) (hf : f < h.frames.size)
    (hv : h.current f (.ofLoop p "loop") = some (.loop r)) : h.Denotes f p r := by
  have hsafe := checking_isSafe hf hv Evaluator.deepestStep
  have hlookup := checking_paired_lookup (f := f) (p := p) (r := r) Evaluator.deepestStep
  have hknowing := checking_paired_knowing (f := f) (p := p) (r := r) Evaluator.deepestStep
  rw [Evaluator.runBy_lookup] at hlookup
  refine ⟨fun s e n => ?_, fun g args keywords n hg ha hk => ?_, fun it n hit => ?_,
    fun s l target v n hl hfits => ?_⟩
  · exact looking_up_is_knowing hs hsafe.eval
      (fun _ => hlookup.eval (.of_refusing s) (.of_refusing s e))
      (fun _ => hknowing.eval (.of_refusing s) (.of_refusing s e)) n
  · exact looking_up_is_knowing hs (hsafe.call hg ha hk)
      (fun _ => hlookup.call g args keywords) (fun _ => hknowing.call g args keywords) n
  · exact looking_up_is_knowing hs (hsafe.next hit)
      (fun _ => hlookup.next it) (fun _ => hknowing.next it) n
  · have hbinds (name : String) :
        (Licence.keeping h f p).binds s.frame (.ofLoop l.position name) := by
      rintro ⟨-, heq⟩
      cases heq
      exact hl rfl
    have htwin {ev : Evaluator}
        (hev : (Evaluator.runBy (checking f p r) Evaluator.deepestStep).Paired
          (.refusing doubt doubt_ne_fault) ev) (frames : Array Frame) :
        Twin (.refusing doubt doubt_ne_fault) Same frames
          (Render.bindTarget (Evaluator.runBy (checking f p r) Evaluator.deepestStep) s l target v)
          (Render.bindTarget ev s l target v) := by
      have hassign := Evaluator.assign_twin hev (.of_refusing s) s.frame
        (fun id => .ofLoop l.position id) target v frames fun e _ => .of_refusing s e
      exact hassign.imp fun _ _ _ _ hsame => hsame.1
    exact looking_up_is_knowing hs
      (Render.bindTarget_safe hsafe (fun name _ => hbinds name) hfits) (htwin hlookup)
      (htwin hknowing) n

end Stencil
