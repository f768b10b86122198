import Stencil.Proofs.PlainRuns

/-!
# Twins of evaluation

Two evaluators are paired if they evaluate, call and advance iterators alike on all twins of
heaps. Everything that evaluation builds from these three keeps the pairing, so that one nested
step more keeps it, too. The only steps where two runs can come apart are the lookup of a name and
that of an attribute.
-/

namespace Stencil

variable {l : Leeway} {α β : Type} {frames : Array Frame}

/-- The evaluators do alike, wherever they are asked. -/
structure Evaluator.Paired (l : Leeway) (ev ev' : Evaluator) : Prop where
  eval : ∀ {tracked frames s s' e}, s.Twin l s' → l.Fits tracked frames s e →
    Twin l Same frames (ev.eval s e) (ev'.eval s' e)
  call : ∀ {frames} f args keywords,
    Twin l Same frames (ev.call f args keywords) (ev'.call f args keywords)
  next : ∀ {frames} it, Twin l Same frames (ev.next it) (ev'.next it)

variable {ev ev' : Evaluator}

namespace Evaluator

section Iterating

variable (hev : Paired l ev ev')

include hev

theorem walk_twin {σ : Type} (it : Value) {step step' : σ → Value → Eval (ForInStep σ)}
    (hstep : ∀ {frames} s v, Twin l Same frames (step s v) (step' s v)) (fuel : Nat) (s : σ) :
    Twin l Same frames (ev.walk it step fuel s) (ev'.walk it step' fuel s) := by
  induction fuel generalizing frames s with
  | zero => exact .throw _
  | succ fuel ih =>
    refine .bind (hev.next it) fun frames next _ => ?_
    cases next with
    | none => exact .pure s
    | some v =>
      refine .bind (hstep s v) fun frames' stepped _ => ?_
      cases stepped with
      | done s => exact .pure s
      | yield s => exact ih s

theorem drain_twin (it : Value) : Twin l Same frames (ev.drain it) (ev'.drain it) :=
  walk_twin hev it (fun _ _ => .pure _) _ _

theorem collect_twin (v : Value) : Twin l Same frames (ev.collect v) (ev'.collect v) :=
  .bind (toIterator_plain v).twin fun _ it _ => drain_twin hev it

theorem takeAtMost_twin (it : Value) (n : Nat) :
    Twin l (Such fun _ vs => vs.length ≤ n) frames (ev.takeAtMost it n) (ev'.takeAtMost it n) := by
  induction n generalizing frames with
  | zero => exact .such fun _ _ => Nat.le_refl 0
  | succ n ih =>
    unfold takeAtMost
    refine .bind (hev.next it) fun frames next _ => ?_
    cases next with
    | none => exact .such fun _ _ => Nat.zero_le _
    | some v => exact .bindSuch ih fun _ vs _ hvs => .such fun _ _ => Nat.succ_le_succ hvs

/-- An iterator that has delivered its items must be at its end. -/
theorem atEnd_twin (it : Value) {vs : List Value} {n : Nat} (hn : vs.length = n) (f : Fault) :
    Twin l (Such fun _ vs => vs.length = n) frames
      (do
        match ← ev.next it with
        | none => return vs
        | some _ => Eval.fault f)
      (do
        match ← ev'.next it with
        | none => return vs
        | some _ => Eval.fault f) := by
  refine .bind (hev.next it) fun _ next _ => ?_
  cases next with
  | none => exact .such fun _ _ => hn
  | some v => exact .fault _

theorem unpackExactly_twin (v : Value) (n : Nat) :
    Twin l (Such fun _ vs => vs.length = n) frames (ev.unpackExactly v n)
      (ev'.unpackExactly v n) := by
  unfold unpackExactly
  refine .bind (iteratorToUnpack_plain v).twin fun _ it _ => ?_
  refine .bindSuch (takeAtMost_twin hev it n) fun _ vs _ hvs => ?_
  dsimp only
  split
  · exact .failed _
  · rename_i hn
    exact atEnd_twin hev it (Nat.le_antisymm hvs (Nat.le_of_not_lt hn)) _

theorem unpackAround_twin (v : Value) (before after : Nat) :
    Twin l (Such fun _ vs => vs.length = before + 1 + after) frames
      (ev.unpackAround v before after) (ev'.unpackAround v before after) := by
  unfold unpackAround
  refine .bind (iteratorToUnpack_plain v).twin fun _ it _ => ?_
  refine .bindSuch (takeAtMost_twin hev it before) fun _ first _ hfirst => ?_
  split
  · exact .failed _
  · rename_i hbefore
    refine .bind (drain_twin hev it) fun _ rest _ => ?_
    dsimp only
    split
    · exact .failed _
    · rename_i hafter
      refine .bind (Plain.newList _).twin fun _ middle _ => .such fun _ _ => ?_
      simp only [List.length_append, List.length_cons, Array.length_toList, Array.size_extract]
      omega

theorem unpack_twin (targets : List Expr) (v : Value) :
    Twin l (Such fun _ vs => vs.length = targets.length) frames (ev.unpack targets v)
      (ev'.unpack targets v) := by
  unfold unpack
  split
  · exact unpackExactly_twin hev v _
  · rename_i i hi
    have hlt : i < targets.length := (List.findIdx?_eq_some_iff_findIdx_eq.mp hi).1
    refine (unpackAround_twin hev v _ _).imp fun _ vs vs' _ hvs => ⟨hvs.1, ?_⟩
    have hlength := hvs.2
    omega

end Iterating

section Assigning

variable {tracked : Bool} {s s' : Scope}

mutual

/-- Where a target is given a value, its names have values from then on. -/
theorem assign_twin (hev : Paired l ev ev') (hs : s.Twin l s') (r : Ref)
    (var : String → Variable) : ∀ (e : Expr) (v : Value) (frames : Array Frame),
      (∀ f ∈ e.loads, l.Fits tracked frames s f) →
      Twin l (Such fun frames' _ => r < frames.size →
        ∀ id ∈ e.storedNames, Assigned frames' r (var id)) frames
        (ev.assign s (fun id w => Eval.bind r (var id) w) e v)
        (ev'.assign s' (fun id w => Eval.bind r (var id) w) e v)
  | .name id, v, frames, _ => by
    refine (Twin.bindVariable r (var id) v).imp fun frames' _ _ _ h => ⟨h.1, fun hr id' hid' => ?_⟩
    rw [List.mem_singleton.mp hid']
    exact h.2 hr
  | .starred target, v, frames, hf => assign_twin hev hs r var target v frames hf
  | .display kind targets, v, frames, hf => by
    unfold assign
    refine .bindSuch (unpack_twin hev targets v) fun frames' vs hg hvs => ?_
    have hrest := assignAll_twin hev hs r var targets vs frames'
      (fun f hf' => (hf f hf').mono hg) hvs.symm
    exact hrest.imp fun frames'' _ _ _ h => ⟨h.1, fun hr => h.2 (Nat.lt_of_lt_of_le hr hg.size)⟩
  | .subscript container index, v, frames, hf => by
    unfold assign
    refine .bind (hev.eval hs (hf container List.mem_cons_self)) fun frames' c hg => ?_
    have hindex := (hf index (List.mem_cons_of_mem _ List.mem_cons_self)).mono hg
    refine .bind (hev.eval hs hindex) fun _ i _ => ?_
    exact (assignItem_plain c i v).twin.imp fun _ _ _ _ h => ⟨h, fun _ => nofun⟩
  | .attribute container label, v, frames, hf => by
    unfold assign
    refine .bind (hev.eval hs (hf container List.mem_cons_self)) fun _ c _ => ?_
    exact (assignAttribute_plain c label v).twin.imp fun _ _ _ _ h => ⟨h, fun _ => nofun⟩
  | .literal _, _, _, _ | .interpolated _, _, _, _ | .dict _, _, _, _ | .unary _ _, _, _, _
  | .binary _ _ _, _, _, _ | .boolean _ _, _, _, _ | .compare _ _, _, _, _
  | .conditional _ _ _, _, _, _ | .slice _ _ _, _, _, _ | .call _ _ _, _, _, _
  | .lambda _ _, _, _, _ | .collect _ _ _, _, _, _ | .collectDict _ _ _, _, _, _
  | .assignment _ _, _, _, _ | .await _, _, _, _ | .yielded _, _, _, _
  | .yieldedFrom _, _, _, _ => .such fun _ _ _ => nofun

theorem assignAll_twin (hev : Paired l ev ev') (hs : s.Twin l s') (r : Ref)
    (var : String → Variable) : ∀ (es : List Expr) (vs : List Value) (frames : Array Frame),
      (∀ f ∈ Expr.loadsOfAll es, l.Fits tracked frames s f) →
      es.length = vs.length →
      Twin l (Such fun frames' _ => r < frames.size →
        ∀ id ∈ Expr.storedNamesOfAll es, Assigned frames' r (var id)) frames
        (ev.assignAll s (fun id w => Eval.bind r (var id) w) es vs)
        (ev'.assignAll s' (fun id w => Eval.bind r (var id) w) es vs)
  | [], [], _, _, _ => .such fun _ _ _ => nofun
  | e :: es, v :: vs, frames, hf, hlength => by
    unfold assignAll
    refine .bindSuch (assign_twin hev hs r var e v frames fun f hf' =>
      hf f (List.mem_append_left _ hf')) fun frames' _ hg hfirst => ?_
    have hrest := assignAll_twin hev hs r var es vs frames'
      (fun f hf' => (hf f (List.mem_append_right _ hf')).mono hg) (Nat.succ.inj hlength)
    refine hrest.imp fun frames'' _ _ hg' h => ⟨h.1, fun hr id hid => ?_⟩
    rcases List.mem_append.mp hid with hid | hid
    · exact hg'.assigned _ _ (hfirst hr id hid)
    · exact h.2 (Nat.lt_of_lt_of_le hr hg.size) id hid

end

end Assigning

section Reading

variable (hev : Paired l ev ev')

include hev

theorem isIn_twin (v container : Value) :
    Twin l Same frames (ev.isIn v container) (ev'.isIn v container) := by
  unfold isIn
  refine .get (fun h h' l => ?_) fun h => ?_
  · simp only [l.listItems, l.dictEntries, l.setItems, l.lookupKey?, l.indexOfKey]
  · split
    · exact .ofExcept _
    · exact .ofExcept _
    · exact (isAmong_plain _ v).twin
    · exact (isAmong_plain _ v).twin
    · exact .bind (.ofExcept _) fun _ found _ => .pure _
    · exact .bind (.ofExcept _) fun _ found _ => .pure _
    · exact (isAmong_plain _ v).twin
    · exact (isAmong_plain _ v).twin
    · split
      · exact (isAmong_plain _ _).twin
      · exact .bind (.ofExcept _) fun _ found _ => .pure _
    · exact .pure _
    · refine .bind (toIterator?_plain _).twin fun _ it _ => ?_
      split
      · exact .fault _
      · refine walk_twin hev _ (fun _ w => ?_) _ _
        refine .get (fun h h' l => ?_) fun h => .bind (.ofExcept _) fun _ same _ => ?_
        · rw [l.alike]
        · split
          · exact .pure _
          · exact .pure _

theorem pairAt_twin (i : Nat) (v : Value) :
    Twin l Same frames (ev.pairAt i v) (ev'.pairAt i v) := by
  refine .bind (toIterator?_plain v).twin fun _ it _ => ?_
  split
  · exact .fault _
  · refine .bind (drain_twin hev _) fun _ items _ => ?_
    split
    · exact .pure _
    · exact .fault _

theorem updateDict_twin (r : Ref) (v : Value) :
    Twin l Same frames (ev.updateDict r v) (ev'.updateDict r v) := by
  have hput (k w : Value) : Plain (do
      let h ← get
      Eval.write r (.dict (← Eval.ofExcept (Value.putEntry h (h.dictEntries r) k w)))) := by
    refine .get (fun h h' l => ?_) fun h => .bind (.ofExcept _) fun entries => .write r trivial
    rw [l.putEntry, l.dictEntries]
  unfold updateDict
  dsimp only
  refine .bind (entriesOf?_plain v).twin fun _ entries _ => ?_
  split
  · rename_i entries
    obtain ⟨entries⟩ := entries
    rw [List.forM_toArray' entries _ rfl]
    exact (Plain.forM (fun e => hput e.1 e.2) entries).twin
  · refine .bind (toIterator_plain v).twin fun _ it _ => ?_
    refine .bind (walk_twin hev it (fun i pair => ?_) _ _) fun _ _ _ => .pure _
    refine .bind (pairAt_twin hev i pair) fun _ e _ => ?_
    exact .bind (hput e.1 e.2).twin fun _ _ _ => .pure _

end Reading

end Evaluator

end Stencil
