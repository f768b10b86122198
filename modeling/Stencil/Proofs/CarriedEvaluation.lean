import Stencil.Evaluation.Sorting
import Stencil.Proofs.CarriedSteps

/-!
# Evaluation in renamed heaps

What evaluation does by coming back to itself: it walks along iterators, unpacks, assigns and
searches. An evaluator whose three ways back are carried over by a renaming does all of this in
step in both heaps.
-/

namespace Stencil

namespace Renaming

structure Evaluates (ρ : Renaming) (ev : Evaluator) : Prop where
  eval : ∀ s e, ρ.Carried ρ.value (ev.eval s e) (ev.eval (ρ.scope s) e)
  call : ∀ f args keywords, ρ.Carried ρ.value (ev.call f args keywords)
    (ev.call (ρ.value f) (args.map ρ.value) (ρ.bindings keywords))
  next : ∀ it, ρ.Carried (Option.map ρ.value) (ev.next it) (ev.next (ρ.value it))

def stepped {σ τ : Type} (f : σ → τ) : ForInStep σ → ForInStep τ
  | .done s => .done (f s)
  | .yield s => .yield (f s)

variable {ρ : Renaming} {ev : Evaluator}

theorem putEntry_carried (r : Ref) (k v : Value) : ρ.Carried id
    (do
      let h ← get
      Eval.write r (.dict (← Eval.ofExcept (Value.putEntry h (h.dictEntries r) k v))))
    (do
      let h ← get
      Eval.write (ρ.cell r) (.dict (← Eval.ofExcept
        (Value.putEntry h (h.dictEntries (ρ.cell r)) (ρ.value k) (ρ.value v))))) := by
  refine .get fun h h' hc => ?_
  rw [hc.dictEntries]
  exact .bind (.ofExcept (hc.putEntry_value _ _ _)) fun entries => .write r (.dict entries)

namespace Evaluates

variable (hev : ρ.Evaluates ev)

include hev

theorem walk {σ τ : Type} {f : σ → τ} (it : Value) {step : σ → Value → Eval (ForInStep σ)}
    {step' : τ → Value → Eval (ForInStep τ)}
    (hstep : ∀ s v, ρ.Carried (stepped f) (step s v) (step' (f s) (ρ.value v))) (fuel : Nat)
    {s : σ} {t : τ} (ht : t = f s) :
    ρ.Carried f (ev.walk it step fuel s) (ev.walk (ρ.value it) step' fuel t) := by
  subst ht
  induction fuel generalizing s with
  | zero => exact .throw _
  | succ fuel ih =>
    refine .bind (hev.next it) fun item => ?_
    cases item with
    | none => exact .pure
    | some v =>
      refine .bind (hstep s v) fun next => ?_
      cases next with
      | done s => exact .pure
      | yield s => exact ih

theorem drain (it : Value) :
    ρ.Carried (Array.map ρ.value) (ev.drain it) (ev.drain (ρ.value it)) := by
  refine hev.walk it (fun items v => ?_) _ Array.map_empty.symm
  exact .deliver (congrArg ForInStep.yield Array.map_push.symm)

theorem collect (v : Value) :
    ρ.Carried (Array.map ρ.value) (ev.collect v) (ev.collect (ρ.value v)) :=
  .bind (toIterator_carried v) hev.drain

theorem takeAtMost (it : Value) (n : Nat) :
    ρ.Carried (List.map ρ.value) (ev.takeAtMost it n) (ev.takeAtMost (ρ.value it) n) := by
  induction n with
  | zero => exact .pure
  | succ n ih =>
    unfold Evaluator.takeAtMost
    refine .bind (hev.next it) fun item => ?_
    cases item with
    | none => exact .pure
    | some v => exact .bind ih fun rest => .pure

/-- An iterator that has delivered its items must be at its end. -/
theorem atEnd (it : Value) (items : List Value) (fault : Fault) : ρ.Carried (List.map ρ.value)
    (do
      match ← ev.next it with
      | none => return items
      | some _ => Eval.fault fault)
    (do
      match ← ev.next (ρ.value it) with
      | none => return items.map ρ.value
      | some _ => Eval.fault fault) := by
  refine .bind (hev.next it) fun item => ?_
  cases item with
  | none => exact .pure
  | some v => exact .fault _

theorem unpackExactly (v : Value) (n : Nat) :
    ρ.Carried (List.map ρ.value) (ev.unpackExactly v n) (ev.unpackExactly (ρ.value v) n) := by
  unfold Evaluator.unpackExactly
  refine .bind (iteratorToUnpack_carried v) fun it => ?_
  refine .bind (hev.takeAtMost it n) fun items => ?_
  dsimp only
  rw [List.length_map]
  split
  · exact .failed _
  · exact hev.atEnd it items _

theorem unpackAround (v : Value) (before after : Nat) : ρ.Carried (List.map ρ.value)
    (ev.unpackAround v before after) (ev.unpackAround (ρ.value v) before after) := by
  unfold Evaluator.unpackAround
  refine .bind (iteratorToUnpack_carried v) fun it => ?_
  refine .bind (hev.takeAtMost it before) fun first => ?_
  dsimp only
  rw [List.length_map]
  split
  · exact .failed _
  · refine .bind (hev.drain it) fun rest => ?_
    rw [Array.size_map]
    split
    · exact .failed _
    · rw [← Array.map_extract, ← Array.map_extract]
      refine .bind (.newList _) fun middle => .deliver ?_
      rw [List.map_append, List.map_cons, Array.toList_map]

theorem unpack (targets : List Expr) (v : Value) :
    ρ.Carried (List.map ρ.value) (ev.unpack targets v) (ev.unpack targets (ρ.value v)) := by
  unfold Evaluator.unpack
  split
  · exact hev.unpackExactly v _
  · exact hev.unpackAround v _ _

omit hev

mutual

theorem assign (hev : ρ.Evaluates ev) (s : Scope) {store store' : String → Value → Eval Unit}
    (hstore : ∀ name v, ρ.Carried id (store name v) (store' name (ρ.value v))) :
    ∀ (e : Expr) (v : Value),
      ρ.Carried id (ev.assign s store e v) (ev.assign (ρ.scope s) store' e (ρ.value v))
  | .name id, v => hstore id v
  | .starred target, v => assign hev s hstore target v
  | .display _ targets, v => by
    unfold Evaluator.assign
    exact .bind (hev.unpack targets v) fun vs => assignAll hev s hstore targets vs
  | .subscript container index, v => by
    unfold Evaluator.assign
    refine .bind (hev.eval s container) fun c => .bind (hev.eval s index) fun i => ?_
    exact assignItem_carried c i v
  | .attribute container label, v => by
    unfold Evaluator.assign
    exact .bind (hev.eval s container) fun c => assignAttribute_carried c label v
  | .literal _, _ | .interpolated _, _ | .dict _, _ | .unary _ _, _ | .binary _ _ _, _
  | .boolean _ _, _ | .compare _ _, _ | .conditional _ _ _, _ | .slice _ _ _, _ | .call _ _ _, _
  | .lambda _ _, _ | .collect _ _ _, _ | .collectDict _ _ _, _ | .assignment _ _, _ | .await _, _
  | .yielded _, _ | .yieldedFrom _, _ => .pure (a := ())

theorem assignAll (hev : ρ.Evaluates ev) (s : Scope) {store store' : String → Value → Eval Unit}
    (hstore : ∀ name v, ρ.Carried id (store name v) (store' name (ρ.value v))) :
    ∀ (es : List Expr) (vs : List Value), ρ.Carried id (ev.assignAll s store es vs)
      (ev.assignAll (ρ.scope s) store' es (vs.map ρ.value))
  | [], [] | [], _ :: _ | _ :: _, [] => .pure (a := ())
  | e :: es, v :: vs => by
    rw [List.map_cons]
    unfold Evaluator.assignAll
    exact .bind (assign hev s hstore e v) fun _ => assignAll hev s hstore es vs

end

theorem inText_value (s : String) (v : Value) :
    Evaluator.inText s (ρ.value v) = Evaluator.inText s v := by
  have hkind := congrArg (fun kind => (Except.error (Fault.type
    ("'in <string>' requires string as left operand, not " ++ kind)) : Except Fault Bool))
    (ρ.kindName_value v)
  cases v with
  | str part => rfl
  | _ => exact hkind

theorem inBytes_value (b : List UInt8) (v : Value) :
    Evaluator.inBytes b (ρ.value v) = Evaluator.inBytes b v := by
  have hkind := congrArg (fun kind => (Except.error (Fault.type
    ("a bytes-like object is required, not '" ++ kind ++ "'")) : Except Fault Bool))
    (ρ.kindName_value v)
  cases v with
  | bytes part => rfl
  | bool x => rfl
  | int n => rfl
  | _ => exact hkind

theorem numberInRange_value (start stop step : Int) (v : Value) :
    Evaluator.numberInRange start stop step (ρ.value v) =
      Evaluator.numberInRange start stop step v := by
  cases v <;> rfl

include hev

omit hev in
theorem pairs_value {h h' : Heap} (hc : ρ.Carries h h') (r : Ref) :
    ((h'.dictEntries (ρ.cell r)).toList.map fun (k, w) => Value.tuple [k, w]) =
      ((h.dictEntries r).toList.map fun (k, w) => Value.tuple [k, w]).map ρ.value := by
  rw [hc.dictEntries, Array.toList_map, List.map_map, List.map_map]
  rfl

theorem isAmongItems (v container : Value) : ρ.Carried id
    (do
      match ← container.toIterator? with
      | none =>
        Eval.typeFault ("argument of type '" ++ container.kindName ++ "' is not iterable")
      | some it =>
        ev.walk it (fun _ w => do
          let h ← get
          if ← Eval.ofExcept (Value.alike h w v) then return .done true else return .yield false)
          Evaluator.mostItems false)
    (do
      match ← (ρ.value container).toIterator? with
      | none =>
        Eval.typeFault ("argument of type '" ++ (ρ.value container).kindName ++
          "' is not iterable")
      | some it =>
        ev.walk it (fun _ w => do
          let h ← get
          if ← Eval.ofExcept (Value.alike h w (ρ.value v)) then return .done true
          else return .yield false) Evaluator.mostItems false) := by
  rw [ρ.kindName_value]
  refine .bind (toIterator?_carried container) fun it => ?_
  cases it with
  | none => exact .fault _
  | some it =>
    refine hev.walk it (fun _ w => ?_) _ rfl
    refine .get fun h h' hc => ?_
    rw [hc.alike_value]
    refine .bind (.ofSame rfl) fun same => ?_
    cases same with
    | true => exact .pure (f := stepped id) (a := .done true)
    | false => exact .pure (f := stepped id) (a := .yield false)

theorem isIn (v container : Value) :
    ρ.Carried id (ev.isIn v container) (ev.isIn (ρ.value v) (ρ.value container)) := by
  unfold Evaluator.isIn
  refine .get fun h h' hc => ?_
  have hkey (r : Ref) : ρ.Carried id
      (do return (← Eval.ofExcept (Value.lookupKey? h (h.dictEntries r) v)).isSome)
      (do return (← Eval.ofExcept
        (Value.lookupKey? h' (h'.dictEntries (ρ.cell r)) (ρ.value v))).isSome) := by
    rw [hc.dictEntries]
    exact .bind (.ofExcept (hc.lookupKey?_value _ _)) fun found => .deliver Option.isSome_map
  have hother := hev.isAmongItems v container
  cases container with
  | str s =>
    dsimp only [value]
    rw [inText_value]
    exact .ofSame rfl
  | bytes b =>
    dsimp only [value]
    rw [inBytes_value]
    exact .ofSame rfl
  | list r =>
    dsimp only [value]
    rw [hc.listItems, Array.toList_map]
    exact isAmong_carried _ v
  | tuple items =>
    rw [value_tuple]
    exact isAmong_carried items v
  | dict r => exact hkey r
  | view kind r =>
    cases kind with
    | keys => exact hkey r
    | values =>
      have hmap : (h'.dictEntries (ρ.cell r)).toList.map (·.2) =
          ((h.dictEntries r).toList.map (·.2)).map ρ.value := by
        rw [hc.dictEntries, Array.toList_map, List.map_map, List.map_map]
        rfl
      dsimp only [value]
      rw [hmap]
      exact isAmong_carried _ v
    | items =>
      dsimp only [value]
      rw [pairs_value hc]
      exact isAmong_carried _ v
  | set r =>
    dsimp only [value]
    rw [hc.setItems, Array.toList_map]
    have hamong := isAmong_carried (ρ := ρ) (h.setItems r).toList v
    have hitem : ρ.Carried id
        (do return (← Eval.ofExcept (Value.indexOfKey h v (h.setItems r).toList)).isSome)
        (do return (← Eval.ofExcept (Value.indexOfKey h' (ρ.value v)
          ((h.setItems r).toList.map ρ.value))).isSome) := by
      rw [hc.indexOfKey_value]
      exact .bind (.ofSame rfl) fun found => .pure
    cases v with
    | set r => exact hamong
    | _ => exact hitem
  | range a b c =>
    dsimp only [value]
    rw [numberInRange_value]
    exact .pure
  | _ => exact hother

theorem pairAt (i : Nat) (v : Value) :
    ρ.Carried ρ.entry (ev.pairAt i v) (ev.pairAt i (ρ.value v)) := by
  refine .bind (toIterator?_carried v) fun it => ?_
  cases it with
  | none => exact .fault _
  | some it =>
    refine .bind (hev.drain it) fun items => ?_
    rw [Array.toList_map]
    match items.toList with
    | [] => exact .fault _
    | [k] => exact .fault _
    | [k, w] => exact .pure
    | k :: w :: u :: rest =>
      refine .faultOf ?_
      simp only [List.length_cons, List.length_map]

theorem updateDict (r : Ref) (v : Value) :
    ρ.Carried id (ev.updateDict r v) (ev.updateDict (ρ.cell r) (ρ.value v)) := by
  unfold Evaluator.updateDict
  dsimp only
  refine .bind (entriesOf?_carried v) fun entries => ?_
  cases entries with
  | some entries =>
    obtain ⟨entries⟩ := entries
    dsimp only [Option.map_some]
    rw [List.map_toArray, List.forM_toArray' _ _ rfl, List.forM_toArray' _ _ rfl]
    exact .forM (e := ρ.entry) (fun e => putEntry_carried r e.1 e.2) entries
  | none =>
    refine .bind (toIterator_carried v) fun it => ?_
    refine .bind (hev.walk (f := id) it (fun i pair => ?_) _ rfl) fun _ => .pure (a := ())
    refine .bind (hev.pairAt i pair) fun e => ?_
    exact .bind (putEntry_carried r e.1 e.2) fun _ => .pure (f := stepped id) (a := .yield (i + 1))

end Evaluates

end Renaming

end Stencil
