import Stencil.Proofs.ExactRuns
import Stencil.Proofs.SafeSetups

/-!
# Leaving loops alone

A loop is moved by its iterators: by its own, which makes its passes, and by any other that an
expression gets hold of. An evaluator that refuses to ask these others leaves all loops alone, and
as long as it goes on it does what templates do.
-/

namespace Stencil

/-- To ask the value for an item is to move a loop by another iterator than its own. -/
def Heap.strays (h : Heap) : Value → Bool
  | .iterator _ q =>
    match h.cursor q with
    | .loop r _ => q ≠ r + 1
    | _ => false
  | _ => false

namespace Evaluator

/-- Evaluation that stops where a loop would be moved from outside. -/
def aloof : Nat → Evaluator
  | 0 => exhausted
  | n + 1 => {
      eval := fun s e => (aloof n).expression s e
      call := fun f args keywords => (aloof n).callValue f args keywords
      next := fun it => do
        if (← get).strays it then throw .outOfSteps else (aloof n).nextItem it }

variable {l : Licence} {h : Heap}

/-- No value is the own iterator of a loop; so whatever is asked for an item strays, or moves
none. -/
theorem strays_of_suits (hs : h.IsSound) {k : IteratorKind} {q r : Ref} {i : Nat}
    (hit : Suits h (Value.iterator k q)) (hc : h.cursor q = .loop r i) :
    h.strays (.iterator k q) = true := by
  unfold Heap.strays
  dsimp only
  rw [hc]
  dsimp only
  refine decide_eq_true fun heq => ?_
  have hloop : h.Offers .loop r := by
    have hcursor := hs.cursor q
    rw [hc] at hcursor
    exact hcursor (.loop, r) List.mem_cons_self
  exact ((suits_iteratorValue q k).mp hit).1 ⟨r, _, hloop.loopState, heq⟩

theorem aloof_isSafe (l : Licence) (n : Nat) : (aloof n).IsSafe l := by
  induction n with
  | zero => exact exhausted_isSafe l
  | succ n ih =>
    refine ⟨Safe.expression ih _, Safe.callValue ih, fun {h it} hit => ?_⟩
    refine .get fun hs => ?_
    split
    · exact .throw l.not_bars_outOfSteps
    · rename_i hstays
      refine Safe.nextItem ih hit fun k q r i heq hc => ?_
      subst heq
      exact absurd (strays_of_suits hs hit hc) hstays

theorem aloof_takesOwn (n : Nat) : (aloof (n + 1)).TakesOwn := by
  intro h r hown m
  have hstays : ¬ h.strays (.iterator .generator (r + 1)) = true := by
    unfold Heap.strays
    dsimp only
    cases hc : h.cursor (r + 1) with
    | loop q i =>
      rw [hc] at hown
      cases hown
      simp
    | _ => simp
  rw [standard_next]
  change Eval.run (if h.strays _ = true then _ else (aloof n).nextItem _) m h = _
  rw [if_neg hstays]
  unfold nextItem
  change Eval.runOn (((aloof n).step (h.cursor (r + 1))).run m h) _ =
    Eval.runOn (((run 999999).step (h.cursor (r + 1))).run m h) _
  cases hc : h.cursor (r + 1) with
  | loop q i => rfl
  | done => rfl
  | _ =>
    rw [hc] at hown
    cases hown

theorem aloof_paired (n : Nat) :
    (aloof n).Paired (.refusing .outOfSteps nofun) (run n) := by
  induction n with
  | zero => exact ⟨fun _ _ => .throw _, fun _ _ _ => .throw _, fun _ => .throw _⟩
  | succ n ih =>
    have hlook : (Leeway.refusing .outOfSteps nofun).Meets Scope.lookup Scope.lookup :=
      refusing_meets (fun _ _ _ _ => .inl rfl) lookup_refusing
    refine ⟨fun {_ _ s s' e} hs hf => ?_, fun f args keywords =>
      callValue_twin ih f args keywords, fun {frames} it => ?_⟩
    · change Twin _ Same _ ((aloof n).expression s e) ((run n).expression s' e)
      rw [← expressionBy_lookup, ← expressionBy_lookup]
      exact expression_twin ih hlook hs e hf
    · have hnext : Twin (.refusing .outOfSteps nofun) Same frames _ _ := nextItem_twin ih it
      intro m h h' ht hg
      change Joined _ _ _ (Eval.run (if h.strays it = true then _ else (aloof n).nextItem it) m h) _
      split
      · exact .lost rfl
      · exact hnext m h h' ht hg

/-- The evaluator of templates, but that it moves no loop from outside. -/
def reserved : Evaluator := aloof deepestStep

end Evaluator

end Stencil
