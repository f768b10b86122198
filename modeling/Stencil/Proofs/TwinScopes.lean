import Stencil.Proofs.TwinCalls

/-!
# Twins of functions and comprehensions

An anonymous function binds all its parameters before its body is evaluated. A comprehension
binds the targets of its clauses from the outermost inwards: where it has opened so many of its
iterators, the targets of all clauses but the innermost of these have values, and after an item
was taken from that one, so have its own. So whatever is evaluated in a round is ready.
-/

namespace Stencil

variable {l : Leeway} {frames : Array Frame} {ev ev' : Evaluator} {tracked : Bool}

namespace BindingsOf

variable {κ : Type} [DecidableEq κ] {b : BindingsOf κ} {k : κ}

theorem get?_isSome : (b.get? k).isSome = true ↔ ∃ v, (k, v) ∈ b := by
  unfold get?
  rw [List.lookup_isSome_iff]
  constructor
  · rintro ⟨⟨k', v⟩, hmem, hk⟩
    exact ⟨v, (beq_iff_eq.mp hk) ▸ hmem⟩
  · rintro ⟨v, hmem⟩
    exact ⟨(k, v), hmem, beq_iff_eq.mpr rfl⟩

end BindingsOf

namespace Closure

variable {c : Closure}

/-- Parameters that have been filled up all have a value. -/
theorem fillDefaults_ok {kind : String} {names : List String} {defaults bound bound' : Bindings}
    (h : c.fillDefaults kind names defaults bound = .ok bound') :
    (∀ e ∈ bound, e ∈ bound') ∧ ∀ p ∈ names, ∃ v, (p, v) ∈ bound' := by
  unfold fillDefaults at h
  dsimp only at h
  split at h
  · rename_i hlacking
    cases h
    refine ⟨fun e he => List.mem_append_left _ he, fun p hp => ?_⟩
    by_cases hbound : (bound.get? p).isSome = true
    · obtain ⟨v, hv⟩ := BindingsOf.get?_isSome.mp hbound
      exact ⟨v, List.mem_append_left _ hv⟩
    · have habsent : p ∈ names.filter fun p => (bound.get? p).isNone := by
        refine List.mem_filter.mpr ⟨hp, ?_⟩
        rwa [Option.not_isSome_iff_eq_none, ← Option.isNone_iff_eq_none] at hbound
      cases hdefault : defaults.get? p with
      | none =>
        have hlack : p ∈ [] := List.isEmpty_iff.mp hlacking ▸
          List.mem_filter.mpr ⟨habsent, Option.isNone_iff_eq_none.mpr hdefault⟩
        cases hlack
      | some v =>
        refine ⟨v, List.mem_append_right _ (List.mem_filterMap.mpr ⟨p, habsent, ?_⟩)⟩
        rw [hdefault]
        rfl
  · cases h

theorem except_bind_ok {ε α β : Type} {x : Except ε α} {f : α → Except ε β} {b : β}
    (h : x >>= f = .ok b) : ∃ a, x = .ok a ∧ f a = .ok b := by
  cases x with
  | ok a => exact ⟨a, rfl, h⟩
  | error e => cases h

/-- Where arguments could be bound, all parameters have a value but those that take the rest. -/
theorem bind_ok {args : List Value} {keywords : Bindings} {call : Call}
    (h : c.bind args keywords = .ok call) :
    ∀ p ∈ c.single, ∃ v, (p, v) ∈ call.bound := by
  unfold bind at h
  dsimp only at h
  obtain ⟨given, -, h⟩ := except_bind_ok h
  split at h
  · cases h
  · obtain ⟨placed, hplaced, h⟩ := except_bind_ok h
    obtain ⟨filled, hfilled, h⟩ := except_bind_ok h
    cases h
    intro p hp
    have hfill : ∃ v, (p, v) ∈ filled := by
      rcases List.mem_append.mp hp with hplace | hkeyword
      · obtain ⟨v, hv⟩ := (fillDefaults_ok hplaced).2 p hplace
        exact ⟨v, (fillDefaults_ok hfilled).1 _ hv⟩
      · exact (fillDefaults_ok hfilled).2 p hkeyword
    obtain ⟨v, hv⟩ := Option.isSome_iff_exists.mp (BindingsOf.get?_isSome.mpr hfill)
    exact ⟨v, List.mem_filterMap.mpr ⟨p, hp, by rw [hv]; rfl⟩⟩

theorem spare_twin (parameter : Option String) (e : Bindings) :
    Twin l (Such fun _ spare => ∀ id ∈ parameter.toList, ∃ v, (id, v) ∈ spare) frames
      (parameter.toList.mapM fun p => do
        let d ← Eval.newDict (e.map fun (k, v) => (Value.str k, v)).toArray
        return (p, d))
      (parameter.toList.mapM fun p => do
        let d ← Eval.newDict (e.map fun (k, v) => (Value.str k, v)).toArray
        return (p, d)) := by
  cases parameter with
  | none => exact .such fun _ _ => nofun
  | some p =>
    refine .bindSuch (P := fun _ b => b.1 = p)
      (.bind (Plain.newDict _).twin fun _ _ _ => .such fun _ _ => rfl) fun _ b _ hb => ?_
    refine .such fun _ _ id hid => ⟨b.2, List.mem_singleton.mpr ?_⟩
    rw [List.mem_singleton.mp hid, ← hb]

theorem own_names_bound {call : Call} {args : List Value} {keywords spare : Bindings}
    (h : c.bind args keywords = .ok call)
    (hspare : ∀ id ∈ c.parameters.restKeywords.toList, ∃ v, (id, v) ∈ spare) :
    ∀ id ∈ c.parameters.names, (BindingsOf.get? ((call.bound ++
      (c.parameters.rest.toList.map fun p => (p, Value.tuple call.rest)) ++ spare).map
        fun (p, v) => (Variable.own p, v)) (.own id)).isSome = true := by
  intro id hid
  have hmem : ∃ v, (id, v) ∈ call.bound ++
      (c.parameters.rest.toList.map fun p => (p, Value.tuple call.rest)) ++ spare := by
    rcases List.mem_append.mp hid with hid | hid
    · rcases List.mem_append.mp hid with hid | hid
      · obtain ⟨v, hv⟩ := bind_ok h id hid
        exact ⟨v, List.mem_append_left _ (List.mem_append_left _ hv)⟩
      · exact ⟨.tuple call.rest, List.mem_append_left _
          (List.mem_append_right _ (List.mem_map.mpr ⟨id, hid, rfl⟩))⟩
    · obtain ⟨v, hv⟩ := hspare id hid
      exact ⟨v, List.mem_append_right _ hv⟩
  obtain ⟨v, hv⟩ := hmem
  exact BindingsOf.get?_isSome.mpr ⟨v, List.mem_map.mpr ⟨(id, v), hv, rfl⟩⟩

theorem frameOf_twin {args : List Value} {keywords : Bindings} {call : Call}
    (h : c.bind args keywords = .ok call) :
    Twin l (Such fun _ b => ∀ id ∈ c.parameters.names, (b.get? (.own id)).isSome = true) frames
      (c.frameOf call) (c.frameOf call) := by
  unfold frameOf
  exact .bindSuch (spare_twin _ call.spare) fun _ spare _ hspare =>
    .such fun _ _ => own_names_bound h hspare

/-- Called with the same arguments, two functions that are the same but for what they are told
about missing names end alike. -/
theorem call_twin (hev : ev.Paired l ev') {s' : Scope} (hc : c.Fits l tracked frames)
    (hs : c.scope.Twin l s') (args : List Value) (keywords : Bindings) :
    Twin l Same frames (c.call ev args keywords)
      (({ c with scope := s' } : Closure).call ev' args keywords) := by
  cases hs with
  | @told mode loops hmode hloops =>
    unfold call
    change Twin l Same frames (Eval.ofExcept (c.bind args keywords) >>= _)
      (Eval.ofExcept (c.bind args keywords) >>= _)
    refine .bindSuch (.ofExceptSuch _) fun _ bound hg₀ hbound => ?_
    refine .bindSuch (frameOf_twin hbound) fun _ b hg₁ hb => ?_
    refine .bindSuch (.newFrame b) fun frames' r hg₂ hr => .nested 1 ?_
    have hfits : l.Fits tracked frames' (c.bodyScope r) c.body := by
      have hg := (hg₀.trans hg₁).trans hg₂
      refine ⟨hc.admits, fun ht => ?_, fun hf => Nat.lt_of_lt_of_le (hc.framed hf) hg.size⟩
      have hready := (hc.ready ht).mono hg
      refine ⟨hready.frame, hready.loops, fun s hmem id hid => ?_⟩
      rcases List.mem_cons.mp hmem with rfl | hmem
      · exact ⟨hid, hr.2 _ (hb id hid)⟩
      · exact hready.locals s hmem id hid
    exact hev.eval (.told hmode hloops) hfits

end Closure

namespace Comprehension

variable {c c' : Comprehension} {n : Nat}

/-- A scope of a comprehension is ready where the targets it sees have values. -/
theorem Fits.scopeReady (hc : c.Fits l true frames n) {i : Nat} (hi : i ≤ n) :
    (c.scopeAfter i).Ready frames := by
  obtain ⟨s, rest, hlocals, hbound⟩ := hc.own rfl
  have hready := hc.ready rfl
  have houter := hready.outer
  have hframe : c.frame = s.frame := by
    unfold frame
    rw [hlocals]
  unfold scopeAfter
  rw [hlocals] at houter ⊢
  refine ⟨houter.frame, houter.loops, fun own hown id hid => ?_⟩
  rcases List.mem_cons.mp hown with rfl | hown
  · obtain ⟨clause, hclause, hid⟩ := List.mem_flatMap.mp hid
    obtain ⟨j, hj, hget⟩ := List.mem_take_iff_getElem.mp hclause
    have hget' : c.clauses[j]? = some clause := hget ▸ List.getElem?_eq_getElem _
    have hmem : clause ∈ c.clauses := List.mem_of_mem_take hclause
    rw [Expr.occurringNames_of_isNames _ (hc.names rfl clause hmem)] at hid
    refine ⟨?_, ?_⟩
    · exact hbound ▸ List.mem_flatMap.mpr ⟨clause, hmem, hid⟩
    · exact hframe ▸ hready.targets j (by omega) clause hget' id hid
  · exact houter.locals own hown id hid

theorem Fits.scopeFramed (hc : c.Fits l tracked frames n) (i : Nat) (hf : l.framed) :
    (c.scopeAfter i).frame < frames.size := by
  rw [(c.scopeAfter_eq i).2.1]
  exact hc.framed hf

/-- What stands in a comprehension may be evaluated where the targets before it have values. -/
theorem Fits.holds (hc : c.Fits l tracked frames n) {i : Nat} {e : Expr}
    (he : Clause.Holds c.product c.clauses i e) (hi : i ≤ n) :
    l.Fits tracked frames (c.scopeAfter i) e := by
  refine ⟨hc.admits i e he, fun ht => ?_, hc.scopeFramed i⟩
  subst ht
  exact hc.scopeReady hi

theorem Fits.target (hc : c.Fits l tracked frames n) {i : Nat} {clause : Clause Expr} {e : Expr}
    (hclause : c.clauses[i]? = some clause) (he : e ∈ clause.target.loads) :
    l.Fits tracked frames (c.scopeAfter (i + 1)) e := by
  refine ⟨hc.admits (i + 1) e (.target hclause he), fun ht => ?_, hc.scopeFramed (i + 1)⟩
  have hmem : clause ∈ c.clauses := List.mem_of_getElem? hclause
  rw [Expr.loads_of_isNames _ (hc.names ht clause hmem)] at he
  cases he

theorem Fits.next (hc : c.Fits l tracked frames n) {clause : Clause Expr}
    (hclause : c.clauses[n]? = some clause) {frames' : Array Frame} (hg : Grows frames frames')
    (h : c.frame < frames.size → ∀ id ∈ clause.target.storedNames,
      Assigned frames' c.frame (.own id)) : c.Fits l tracked frames' (n + 1) where
  own := hc.own
  admits := hc.admits
  names := hc.names
  ready ht :=
    { outer := (hc.ready ht).outer.mono hg
      frame := Nat.lt_of_lt_of_le (hc.ready ht).frame hg.size
      targets := by
        intro i hi other hother id hid
        rcases Nat.lt_succ_iff_lt_or_eq.mp hi with hi | rfl
        · exact hg.assigned _ _ ((hc.ready ht).targets i hi other hother id hid)
        · cases hclause.symm.trans hother
          exact h (hc.ready ht).frame id hid }
  framed hf := Nat.lt_of_lt_of_le (hc.framed hf) hg.size

theorem Fits.withIterators (hc : c.Fits l tracked frames n) (iterators : List Value) :
    ({ c with iterators } : Comprehension).Fits l tracked frames n where
  own := hc.own
  admits := hc.admits
  names := hc.names
  ready ht := ⟨(hc.ready ht).outer, (hc.ready ht).frame, (hc.ready ht).targets⟩
  framed := hc.framed

theorem scopeAfter_twin {s : Scope} (hs : c.scope.Twin l s) (i : Nat) :
    (c.scopeAfter i).Twin l (({ c with scope := s } : Comprehension).scopeAfter i) := by
  cases hs with
  | told hmode hloops =>
    unfold scopeAfter
    dsimp only
    split
    · exact .told hmode hloops
    · exact .told hmode hloops

theorem Retold.fullScope_twin (hc : c.Retold l tracked n frames c') :
    c.fullScope.Twin l c'.fullScope := by
  cases hc with
  | told hfits hs => exact scopeAfter_twin hs c.clauses.length

/-- What a round delivers may be evaluated where all targets have values. -/
theorem Retold.parts (hc : c.Retold l tracked c.clauses.length frames c') :
    ∀ e ∈ c.product.parts, l.Fits tracked frames c.fullScope e := by
  cases hc with
  | told hfits hs => exact fun e he => hfits.holds (.product he) (Nat.le_refl _)

/-- A comprehension of some clauses is under way in both runs, and the targets of the first `n`
clauses, at least of all whose iterators are not the innermost, have values. -/
structure Underway (l : Leeway) (tracked : Bool) (product : Product)
    (clauses : List (Clause Expr)) (n : Nat) (frames : Array Frame) (c c' : Comprehension) :
    Prop where
  product_eq : c.product = product
  clauses_eq : c.clauses = clauses
  outer_le : c.iterators.length - 1 ≤ n
  retold : c.Retold l tracked n frames c'

def Arrived (l : Leeway) (tracked : Bool) (product : Product) (clauses : List (Clause Expr))
    (frames : Array Frame) : Option Comprehension → Option Comprehension → Prop :=
  Option.Rel (Underway l tracked product clauses clauses.length frames)

theorem Retold.mono {frames' : Array Frame} {m : Nat} (hc : c.Retold l tracked n frames c')
    (hg : Grows frames frames') (hmn : m ≤ n) : c.Retold l tracked m frames' c' := by
  cases hc with
  | told hfits hs => exact .told (hfits.mono hg hmn) hs

/-- A comprehension that may be evaluated begins with no target that has a value. -/
theorem start_twin {s s' : Scope} (hs : s.Twin l s') {e : Expr} {product : Product}
    {clauses : List (Clause Expr)} (hfits : l.Fits tracked frames s e)
    (he : e.comprehension? = some (product, clauses)) (title : String) (source : Value) :
    Twin l (Underway l tracked product clauses 0) frames (start s title product clauses source)
      (start s' title product clauses source) := by
  obtain @⟨mode, loops, hmode, hloops⟩ := hs
  refine .bindSuch (.newFrame []) fun frames₁ r hg₁ hr => ?_
  refine .bind (toIterator_plain source).twin fun frames₂ it hg₂ => ?_
  refine .deliver fun frames₃ hg₃ => ⟨rfl, rfl, Nat.le_refl _,
    .told ?_ (.told hmode hloops)⟩
  have hg := hg₂.trans hg₃
  refine ⟨fun _ => ⟨_, _, rfl, rfl⟩, fun i part hpart context f hf => ?_, fun ht => ?_,
    fun ht => ?_, fun hf => Nat.lt_of_lt_of_le (hfits.framed hf) (hg₁.trans hg).size⟩
  · exact hfits.admits context f (.clause he hpart hf)
  · subst ht
    exact l.names hfits.allowed product clauses he
  · have hready := (hfits.ready ht).mono (hg₁.trans hg)
    exact ⟨⟨hready.frame, hready.loops, hready.locals⟩, Nat.lt_of_lt_of_le hr.1.1 hg.size,
      fun i hi => absurd hi (Nat.not_lt_zero i)⟩

section Running

variable (hev : ev.Paired l ev')

include hev

theorem conditionsHold_twin {s s' : Scope} (hs : s.Twin l s') (es : List Expr)
    (hf : ∀ e ∈ es, l.Fits tracked frames s e) :
    Twin l Same frames (conditionsHold ev s es) (conditionsHold ev' s' es) := by
  induction es generalizing frames with
  | nil => exact .pure true
  | cons e es ih =>
    refine .bind (hev.eval hs (hf e List.mem_cons_self)) fun _ v hg => ?_
    refine .get (fun h h' l => ?_) fun h => ?_
    · rw [l.truth]
    · split
      · exact ih fun e' he' => (hf e' (List.mem_cons_of_mem _ he')).mono hg
      · exact .pure false

theorem advance_twin (fuel : Nat) {c c' : Comprehension}
    (hc : c.Retold l tracked (c.iterators.length - 1) frames c') :
    Twin l (Arrived l tracked c.product c.clauses) frames (advance ev fuel c)
      (advance ev' fuel c') := by
  induction fuel generalizing c c' frames with
  | zero => exact .throw _
  | succ fuel ih =>
    obtain @⟨s', hfits, hs⟩ := hc
    obtain @⟨mode, loops, hmode, hloops⟩ := hs
    unfold advance
    dsimp only
    split
    · exact .deliver fun _ _ => .none
    · rename_i it outer hiterators
      have houter : c.iterators.length - 1 = outer.length := by
        rw [hiterators]
        rfl
      rw [houter] at hfits
      split
      · exact .deliver fun _ _ => .none
      · rename_i clause hclause
        refine .bind (hev.next it) fun _ item hg₀ => ?_
        split
        · -- an iterator is at its end: its targets need no values any more
          have hfewer := hfits.mono (m := outer.length - 1) hg₀ (Nat.sub_le _ _)
          exact ih (c := { c with iterators := outer })
            (.told (hfewer.withIterators outer) (.told hmode hloops))
        · rename_i v
          have hfits₀ := hfits.mono hg₀ (Nat.le_refl _)
          have hscope := scopeAfter_twin (c := c) (.told hmode hloops) (outer.length + 1)
          refine .bindSuch (Evaluator.assign_twin hev hscope c.frame .own clause.target v _
            fun e he => hfits₀.target hclause he) fun frames₁ _ hg₁ hassigned => ?_
          have hfits₁ : c.Fits l tracked frames₁ (outer.length + 1) :=
            hfits₀.next hclause hg₁ hassigned
          refine .bind (conditionsHold_twin hev hscope clause.conditions fun e he =>
            hfits₁.holds (.condition hclause he) (Nat.le_refl _)) fun frames₂ holds hg₂ => ?_
          have hfits₂ := hfits₁.mono hg₂ (Nat.le_refl _)
          split
          · split
            · rename_i hlast
              have hn : outer.length + 1 = c.clauses.length := by
                have hlt := (List.getElem?_eq_some_iff.mp hclause).1
                have hge := List.getElem?_eq_none_iff.mp hlast
                omega
              refine .deliver fun frames₃ hg₃ => .some ⟨rfl, rfl, ?_,
                .told ?_ (.told hmode hloops)⟩
              · rw [houter, ← hn]
                exact Nat.le_succ _
              · exact hfits₂.mono hg₃ (Nat.le_of_eq hn.symm)
            · rename_i inner hinner
              refine .bind (hev.eval hscope (hfits₂.holds (.source hinner) (Nat.le_refl _)))
                fun _ source hg₃ => ?_
              refine .bind (toIterator_plain source).twin fun _ it' hg₄ => ?_
              refine ih (c := { c with iterators := it' :: c.iterators })
                (.told (.withIterators ?_ _) (.told hmode hloops))
              refine hfits₂.mono (hg₃.trans hg₄) (Nat.le_of_eq ?_)
              dsimp only
              rw [hiterators]
              rfl
          · refine ih (.told ?_ (.told hmode hloops))
            exact hfits₂.mono (.refl _) (houter ▸ Nat.le_succ _)

/-- What a round does with the scope it is in, all rounds do. -/
theorem run_twin {σ : Type} {product : Product} {clauses : List (Clause Expr)}
    {step step' : σ → Scope → Eval σ}
    (hstep : ∀ {frames} a {s s'}, s.Twin l s' →
      (∀ e ∈ product.parts, l.Fits tracked frames s e) → Twin l Same frames (step a s) (step' a s'))
    (fuel : Nat) (a : σ) {c c' : Comprehension} {n : Nat}
    (hc : Underway l tracked product clauses n frames c c') :
    Twin l Same frames (run ev step fuel a c) (run ev' step' fuel a c') := by
  induction fuel generalizing a c c' n frames with
  | zero => exact .throw _
  | succ fuel ih =>
    have hadvance := advance_twin hev Evaluator.mostItems (hc.retold.mono (.refl _) hc.outer_le)
    rw [hc.product_eq, hc.clauses_eq] at hadvance
    refine .bindWith hadvance fun frames' o o' _ ho => ?_
    cases ho with
    | none => exact .pure a
    | @some c c' hround =>
      obtain ⟨rfl, rfl, houter, hretold⟩ := hround
      refine .bind (hstep a hretold.fullScope_twin hretold.parts) fun _ a hg => ?_
      exact ih a ⟨rfl, rfl, houter, hretold.mono hg (Nat.le_refl _)⟩

end Running

end Comprehension

end Stencil
