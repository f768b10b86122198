import Stencil.Proofs.TwinRenders

/-!
# Exact runs

A leeway that lets runs differ in nothing makes equations of pairs: the two runs are the same,
unless the first is lost. So a run that may refuse to go on is the other run, as long as it does go
on. A run paired with itself shows what it leaves as it is: nothing changes render data once a
template is entered.
-/

namespace Stencil

variable {l : Leeway} {frames : Array Frame}

/-- Heaps and what scopes are told are the same in both runs. -/
structure Leeway.IsExact (l : Leeway) : Prop where
  tally : l.tally = .even
  modes : ∀ {mode mode'}, l.modes mode mode' → mode' = mode
  data : ∀ {d d'}, l.data d d' → d' = d
  offers : ¬ l.offers

section Equal

variable (hl : l.IsExact)

include hl

theorem Scope.Twin.eq_of_exact {s s' : Scope} (h : s.Twin l s') : s' = s := by
  cases h with
  | told hmode hloops =>
    rw [hl.tally] at hloops
    cases hl.modes hmode
    cases hloops
    rfl

theorem Comprehension.Retold.eq_of_exact {tracked : Bool} {n : Nat} {c c' : Comprehension}
    (h : c.Retold l tracked n frames c') : c' = c := by
  cases h with
  | told hc hs => rw [hs.eq_of_exact hl]

theorem Cell.Twin.eq_of_exact {c c' : Cell} (h : c.Twin l frames c') : c' = c := by
  cases h with
  | inert _ => rfl
  | function hc hs => rw [hs.eq_of_exact hl]
  | generator hc => rw [hc.eq_of_exact hl]

theorem Heap.Twin.eq_of_exact {h h' : Heap} (ht : h.Twin l h') : h' = h := by
  have hcells : h'.cells = h.cells := by
    refine Array.ext_getElem? fun r => ?_
    rcases ht.cells_at r with ⟨hc, hc'⟩ | ⟨c, c', hc, hc', htwin⟩
    · rw [hc, hc']
    · rw [hc, hc', htwin.eq_of_exact hl]
  have hframes : h'.frames = h.frames := by
    have hframes := ht.frames
    rw [hl.tally] at hframes
    exact hframes
  have hdata := hl.data ht.data
  cases h
  cases h'
  cases hcells
  cases hframes
  cases hdata
  rfl

theorem World.Twin.eq_of_exact {w w' : World} (h : w.Twin l w') : w' = w := by
  have hheap := h.heap.eq_of_exact hl
  have hboundary := h.boundary
  have hnotices := h.notices
  cases w
  cases w'
  cases hheap
  cases hboundary
  cases hnotices
  rfl

theorem Joined.eq_or_lost {α : Type} {r r' : Outcome α} (h : Joined l Same frames r r') :
    r = r' ∨ ∃ halt h, r = .error halt h ∧ l.lost h.data halt := by
  cases h with
  | ok ht _ hv =>
    cases ht.eq_of_exact hl
    cases hv
    exact .inl rfl
  | error ht _ hh =>
    cases ht.eq_of_exact hl
    cases hh with
    | same => exact .inl rfl
    | offered ho => exact absurd ho hl.offers
  | lost hlost => exact .inr ⟨_, _, rfl, hlost⟩

theorem Met.eq_or_lost {α : Type} {r r' : EStateM.Result Stop World α}
    (h : Met l Same frames r r') :
    r = r' ∨ ∃ s w, r = .error s w ∧ s.Lost l w.heap.data := by
  cases h with
  | ok hw _ hv =>
    cases hw.eq_of_exact hl
    cases hv
    exact .inl rfl
  | error hw _ hs =>
    cases hw.eq_of_exact hl
    cases hs with
    | same => exact .inl rfl
    | offered ho => exact absurd ho hl.offers
  | lost hlost => exact .inr ⟨_, _, rfl, hlost⟩

end Equal

/-- Both runs are the same, but the first may refuse to go on. A refusal is no fault. -/
def Leeway.refusing (refusal : Halt) (hrefusal : ∀ f, refusal ≠ .fault f) : Leeway where
  modes mode mode' := mode' = mode
  allows tracked _ _ _ _ _ := tracked = false
  data d d' := d' = d
  offers := False
  lost _ halt := halt = refusal
  size_eq := size_of_same
  push := push_of_same
  names := names_of_untracked
  lost_inside h := absurd h.symm (hrefusal _)
  lost_told h := absurd h.symm (hrefusal _)

section Refusing

variable {refusal : Halt} {hrefusal : ∀ f, refusal ≠ .fault f}

theorem Leeway.refusing_isExact : (Leeway.refusing refusal hrefusal).IsExact where
  tally := rfl
  modes h := h
  data h := h
  offers := id

theorem Heap.Twin.of_refusing (h : Heap) : h.Twin (.refusing refusal hrefusal) h where
  size := rfl
  cells r c c' hc hc' := by
    cases hc.symm.trans hc'
    exact .of_allowed (fun _ => rfl) nofun fun _ _ _ _ => rfl
  frames := rfl
  data := rfl

theorem World.Twin.of_refusing (w : World) : w.Twin (.refusing refusal hrefusal) w :=
  ⟨.of_refusing _, rfl, rfl⟩

theorem Scope.Twin.of_refusing (s : Scope) : s.Twin (.refusing refusal hrefusal) s :=
  .told (s := s) rfl rfl

theorem Leeway.Fits.of_refusing (s : Scope) (e : Expr) :
    (Leeway.refusing refusal hrefusal).Fits false frames s e :=
  ⟨fun _ _ _ => rfl, nofun, nofun⟩

namespace Twin

variable {α : Type} {x y : Eval α}

theorem refused_or_eq
    (h : ∀ frames, Twin (.refusing refusal hrefusal) Same frames x y) (n : Nat) (heap : Heap) :
    x.run n heap = y.run n heap ∨ ∃ heap', x.run n heap = .error refusal heap' := by
  have hjoined := h heap.frames n heap heap (.of_refusing heap) (.refl _)
  rcases hjoined.eq_or_lost Leeway.refusing_isExact with heq | ⟨halt, heap', hrun, hlost⟩
  · exact .inl heq
  · have hhalt : halt = refusal := hlost
    exact .inr ⟨heap', hhalt ▸ hrun⟩

/-- Where the first run is the second one or refuses, they are twins if the second has a twin. -/
theorem of_refused_or_eq
    (h : ∀ n heap, x.run n heap = y.run n heap ∨ ∃ heap', x.run n heap = .error refusal heap')
    (hy : Twin (.refusing refusal hrefusal) Same frames y y) :
    Twin (.refusing refusal hrefusal) Same frames x y := by
  intro n heap heap' ht hg
  rcases h n heap with heq | ⟨heap₁, hrun⟩
  · rw [heq]
    exact hy n heap heap' ht hg
  · rw [hrun]
    exact .lost rfl

end Twin

theorem lookup_refusing (s : Scope) (id : String) :
    Twin (.refusing refusal hrefusal) Same frames (s.lookup id) (s.lookup id) := by
  refine lookup_twin (.of_refusing s) id nofun fun _ _ => ?_
  intro n h h' ht _
  cases ht.eq_of_exact Leeway.refusing_isExact
  exact dataValue_joined ht rfl n

/-- Two rules for names of which the first refuses to go on where it is not the second. -/
theorem refusing_meets {look look' : Scope → String → Eval Value}
    (h : ∀ s id n heap, (look s id).run n heap = (look' s id).run n heap ∨
      ∃ heap', (look s id).run n heap = .error refusal heap')
    (hlook' : ∀ {frames} s id,
      Twin (.refusing refusal hrefusal) Same frames (look' s id) (look' s id)) :
    (Leeway.refusing refusal hrefusal).Meets look look' where
  name hs _ := by
    cases hs.eq_of_exact Leeway.refusing_isExact
    exact .of_refused_or_eq (h _ _) (hlook' _ _)
  member v label hmode := by
    cases hmode
    exact member_alike _ v label

end Refusing

section KeptData

open Render

variable {r : Ref} {d : RenderData} {env : Environment}

/-- Both runs are the same, in heaps that have the data `d` at the place `r`. -/
def Leeway.having (r : Ref) (d : RenderData) : Leeway where
  modes mode mode' := mode' = mode
  allows tracked _ _ _ _ _ := tracked ≠ true
  data data data' := data' = data ∧ data[r]? = some d
  offers := False
  lost _ _ := False
  size_eq h := congrArg Array.size h.1.symm
  push x h := by
    obtain ⟨hr, hd⟩ := Array.getElem?_eq_some_iff.mp h.2
    exact ⟨congrArg (·.push x) h.1, (Array.getElem?_push_lt hr).trans (congrArg some hd)⟩
  names h := absurd rfl h
  lost_inside h := h
  lost_told := told_of_never

theorem Leeway.having_isExact : (Leeway.having r d).IsExact where
  tally := rfl
  modes h := h
  data h := h.1
  offers := id

theorem Heap.Twin.of_having {h : Heap} (hr : h.data[r]? = some d) : h.Twin (.having r d) h where
  size := rfl
  cells q c c' hc hc' := by
    cases hc.symm.trans hc'
    exact .of_allowed (fun _ => rfl) nofun fun _ _ _ _ => Bool.false_ne_true
  frames := rfl
  data := ⟨rfl, hr⟩

theorem lookup_having (s : Scope) (id : String) :
    Twin (.having r d) Same frames (s.lookup id) (s.lookup id) := by
  refine lookup_twin (.told (s := s) rfl rfl) id nofun fun _ _ => ?_
  intro n h h' ht _
  cases ht.eq_of_exact Leeway.having_isExact
  exact dataValue_joined ht rfl n

theorem having_meets : (Leeway.having r d).Meets Scope.lookup Scope.lookup where
  name hs _ := by
    cases hs.eq_of_exact Leeway.having_isExact
    exact lookup_having _ _
  member v label hmode := by
    cases hmode
    exact member_alike _ v label

theorem standard_having : Evaluator.standard.Paired (.having r d) Evaluator.standard := by
  have hlook : (Leeway.having r d).Meets Scope.lookup Scope.lookup := having_meets
  have hpaired := Evaluator.runBy_paired hlook Evaluator.deepestStep
  rw [Evaluator.runBy_lookup] at hpaired
  exact hpaired

theorem having_coupled (r : Ref) (d : RenderData) (env : Environment) : Render.Coupled
    (.having r d) env env.lenient (fun _ _ => True) Evaluator.standard Evaluator.standard where
  mode := rfl
  paired := standard_having
  standard := standard_having
  covers := ⟨fun _ => ⟨false, fun _ _ _ _ _ _ => Bool.false_ne_true⟩, fun _ _ _ => trivial,
    fun _ _ => trivial⟩

/-- Whatever nodes do, the data of a template that has been entered are what they were. -/
theorem nodes_keep_data {calls n : Nat} {s : Scope} (hlocals : s.locals = []) {q : Ref}
    {out out' : Output} {ns : List Node} {w w' : World} (hr : w.heap.data[r]? = some d)
    (h : (nodes (around env Evaluator.standard calls (part env Evaluator.standard n) q []) s out
      ns).run w = .ok out' w') : w'.heap.data[r]? = some d := by
  have hcoupled := having_coupled r d env
  have hparts := part_alike hcoupled n
  have hreach : Reach.Twin (.having r d)
      (around env Evaluator.standard calls (part env Evaluator.standard n) q [])
      (around env Evaluator.standard calls (part env Evaluator.standard n) q []) :=
    ⟨standard_having, rfl, fun name fallback => yieldTo_alike (r := q) hparts .nil name fallback,
      fun name v => includePartial_alike hparts hcoupled calls name v⟩
  have hfits : Node.Fits (.having r d) false w.heap.frames s ns :=
    ⟨hlocals, fun _ _ _ _ _ _ => Bool.false_ne_true, nofun, nofun, nofun⟩
  have hmet := nodes_alike hreach ns out (.told (s := s) rfl rfl) hfits w w
    ⟨.of_having hr, rfl, rfl⟩ (.refl _)
  rw [h] at hmet
  cases hmet with
  | ok hw _ _ => exact hw.heap.data.2

end KeptData

end Stencil
