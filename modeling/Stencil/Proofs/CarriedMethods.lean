import Stencil.Evaluation.Expression
import Stencil.Proofs.CarriedCalls

/-!
# Methods in renamed heaps

A method called on a renamed receiver with renamed arguments delivers the renamed result, and so
does whatever else can be called.
-/

namespace Stencil

namespace Renaming

variable {ρ : Renaming} {ev : Evaluator}

namespace TextMethod

open Stencil.TextMethod

theorem split_carried (s : List Char) (args : List Value) (keywords : Bindings) :
    ρ.Carried ρ.value (split s args keywords) (split s (args.map ρ.value) (ρ.bindings keywords)) := by
  have hmade (pieces : List (List Char)) : ρ.Carried ρ.value
      (Eval.newList (pieces.map fun p => Value.str (String.ofList p)).toArray)
      (Eval.newList (pieces.map fun p => Value.str (String.ofList p)).toArray) := by
    have hmap : (pieces.map fun p => Value.str (String.ofList p)).map ρ.value =
        pieces.map fun p => Value.str (String.ofList p) := List.map_map
    have hcarried := Carried.newListOf (ρ := ρ) (pieces.map fun p => Value.str (String.ofList p))
    rwa [hmap] at hcarried
  unfold split
  rw [Arguments.atMost_value, Arguments.onlyKeywords_value, ρ.given_value, ρ.given_value,
    ρ.optionGetD_value rfl, ρ.optionGetD_value rfl, Arguments.integer_value]
  refine .bind (.ofSame rfl) fun _ => .bind (.ofSame rfl) fun limit => ?_
  have hother := congrArg (fun kind => Fault.type ("must be str or None, not " ++ kind))
    (ρ.kindName_value (((args[0]?).or (keywords.get? "sep")).getD .none))
  dsimp only [id]
  generalize ((args[0]?).or (keywords.get? "sep")).getD .none = separator at hother ⊢
  cases separator with
  | none => exact hmade _
  | str separator =>
    dsimp only [value]
    split
    · exact .failed _
    · exact hmade _
  | _ =>
    refine .bind (f := id) (.faultOf hother) fun pieces => ?_
    exact hmade pieces

theorem joinedPart_carried (item : Value) (i : Nat) : ρ.Carried id
    (match item with
      | .str t => Pure.pure t
      | item =>
        Eval.typeFault ("sequence item " ++ toString i ++ ": expected str instance, " ++
          item.kindName ++ " found"))
    (match ρ.value item with
      | .str t => Pure.pure t
      | item =>
        Eval.typeFault ("sequence item " ++ toString i ++ ": expected str instance, " ++
          item.kindName ++ " found")) := by
  have hkind := congrArg (fun kind => Fault.type ("sequence item " ++ toString i ++
    ": expected str instance, " ++ kind ++ " found")) (ρ.kindName_value item)
  cases item with
  | str t => exact .pure (f := id) (a := t)
  | _ => exact .faultOf hkind

theorem join_carried (hev : ρ.Evaluates ev) (s : String) (v : Value) :
    ρ.Carried ρ.value (join ev s v) (join ev s (ρ.value v)) := by
  refine .bind (toIterator?_carried v) fun it => ?_
  cases it with
  | none => exact .fault _
  | some it =>
    refine .bind (hev.drain it) fun items => ?_
    dsimp only
    rw [Array.toList_map, List.zipIdx_map]
    refine .bind (.mapM (fun e => joinedPart_carried e.1 e.2) _) fun parts => .deliver ?_
    rw [List.map_id]
    rfl

end TextMethod

theorem findM?_map {α β : Type} {f : α → β} {p : α → Value.Answer} {p' : β → Value.Answer}
    (hp : ∀ a, p' (f a) = p a) (as : List α) :
    (as.map f).findM? p' = (as.findM? p).map (Option.map f) := by
  induction as with
  | nil => rfl
  | cons a as ih =>
    change (p' (f a) >>= fun found =>
      match found with
      | true => Pure.pure (some (f a))
      | false => (as.map f).findM? p') = _
    rw [hp]
    refine Except.bind_same_eq_map fun found => ?_
    cases found with
    | true => rfl
    | false => exact ih

theorem Carries.findEqual_value {h h' : Heap} (hc : ρ.Carries h h') (v : Value)
    (places : List (Value × Nat)) :
    (places.map (Prod.map ρ.value id)).findM?
        (fun (e : Value × Nat) => Value.alike h' e.1 (ρ.value v)) =
      (places.findM? fun e => Value.alike h e.1 v).map (Option.map (Prod.map ρ.value id)) :=
  findM?_map (fun e => hc.alike_value e.1 v) places

theorem indexIn_carried (items args : List Value) {missing missing' : Value → Except Fault Fault}
    (hmissing : ∀ v, missing' (ρ.value v) = missing v) :
    ρ.Carried ρ.value (indexIn items args missing)
      (indexIn (items.map ρ.value) (args.map ρ.value) missing') := by
  unfold indexIn
  rw [Arguments.between_value, ρ.getD_values args 1 rfl, List.length_map,
    ρ.getD_values args 2 rfl, ρ.headD_values args rfl, List.zipIdx_map]
  refine .bind (.ofSame rfl) fun _ => .get fun h h' hc => ?_
  dsimp only
  rw [ρ.integer?_value, ρ.integer?_value, hmissing]
  refine .bind (.ofSame rfl) fun start => .bind (.ofSame rfl) fun stop => ?_
  have hplaces : ((items.zipIdx.map (Prod.map ρ.value id)).filter fun e =>
      start ≤ e.2 && e.2 < stop) = (items.zipIdx.filter fun e => start ≤ e.2 && e.2 < stop).map
        (Prod.map ρ.value id) := List.filter_map
  dsimp only [id]
  rw [hplaces]
  refine .bind (.ofExcept (hc.findEqual_value _ _)) fun found => ?_
  cases found with
  | some e => exact .pure
  | none => exact .bind (.ofSame rfl) fun fault => .fault fault

theorem countIn_carried (items : List Value) (v : Value) :
    ρ.Carried ρ.value (countIn items v) (countIn (items.map ρ.value) (ρ.value v)) := by
  refine .get fun h h' hc => ?_
  rw [filterM_value (hc.alike_value · v)]
  refine .bind (.ofExcept rfl) fun found => .deliver ?_
  rw [List.length_map]
  rfl

namespace ListMethod

open Stencil.ListMethod

theorem removeAt_carried (r : Ref) (i : Nat) :
    ρ.Carried id (removeAt r i) (removeAt (ρ.cell r) i) := by
  refine .get fun h h' hc => .writeList r ?_
  rw [hc.listItems, Array.eraseIdxIfInBounds_map']

theorem pop_carried (r : Ref) (args : List Value) :
    ρ.Carried ρ.value (pop r args) (pop (ρ.cell r) (args.map ρ.value)) := by
  unfold pop
  rw [Arguments.between_value, ρ.headD_values args rfl, Arguments.integer_value]
  refine .bind (.ofSame rfl) fun _ => .get fun h h' hc => ?_
  dsimp only
  rw [hc.listItems, Array.size_map, isEmpty_map]
  refine .bind (.ofSame rfl) fun n => ?_
  have hremoved (i : Int) : ρ.Carried ρ.value
      (do
        removeAt r i.toNat
        return (h.listItems r).getD i.toNat Value.none)
      (do
        removeAt (ρ.cell r) i.toNat
        return ((h.listItems r).map ρ.value).getD i.toNat Value.none) := by
    refine .bind (removeAt_carried r _) fun _ => .deliver ?_
    rw [Array.getD_eq_getD_getElem?, Array.getD_eq_getD_getElem?, Array.getElem?_map]
    exact ρ.optionGetD_value rfl _
  have hplace (i : Int) : ρ.Carried ρ.value
      (do
        if i < 0 || i ≥ (h.listItems r).size then
          Eval.fault (.index "pop index out of range")
        removeAt r i.toNat
        return (h.listItems r).getD i.toNat Value.none)
      (do
        if i < 0 || i ≥ (h.listItems r).size then
          Eval.fault (.index "pop index out of range")
        removeAt (ρ.cell r) i.toNat
        return ((h.listItems r).map ρ.value).getD i.toNat Value.none) := by
    dsimp only
    split
    · exact .failed _
    · exact hremoved i
  dsimp only [id]
  split
  · exact .failed _
  · exact hplace _

theorem insert_carried (r : Ref) (args : List Value) : ρ.Carried ρ.value
    (Stencil.ListMethod.insert r args)
    (Stencil.ListMethod.insert (ρ.cell r) (args.map ρ.value)) := by
  unfold Stencil.ListMethod.insert
  rw [Arguments.between_value, ρ.headD_values args rfl, ρ.getD_values args 1 rfl,
    Arguments.integer_value]
  refine .bind (.ofSame rfl) fun _ => .get fun h h' hc => ?_
  dsimp only
  rw [hc.listItems, Array.toList_map, List.length_map]
  refine .bind (.ofSame rfl) fun n => .bind (.writeList r ?_) fun _ => .pure
  rw [List.map_toArray, List.map_append, List.map_cons, List.map_take, List.map_drop]
  rfl

theorem remove_carried (r : Ref) (v : Value) :
    ρ.Carried ρ.value (remove r v) (remove (ρ.cell r) (ρ.value v)) := by
  unfold remove
  refine .get fun h h' hc => ?_
  dsimp only
  rw [hc.listItems, Array.toList_map, List.zipIdx_map]
  refine .bind (.ofExcept (hc.findEqual_value _ _)) fun found => ?_
  cases found with
  | some e => exact .bind (removeAt_carried r _) fun _ => .pure
  | none => exact .fault _

theorem call_carried (hev : ρ.Evaluates ev) (r : Ref) (name : String) (args : List Value)
    (keywords : Bindings) : ρ.Carried ρ.value (call ev r name args keywords)
      (call ev (ρ.cell r) name (args.map ρ.value) (ρ.bindings keywords)) := by
  unfold call
  dsimp only
  rw [Arguments.noKeywords_value, Arguments.one_value, Arguments.nothing_value]
  refine .bind (.ofSame rfl) fun _ => .get fun h h' hc => ?_
  rw [hc.listItems]
  split
  · exact .bind (.ofExcept rfl) fun v => .bind (.writeList r Array.map_push.symm) fun _ => .pure
  · refine .bind (.ofExcept rfl) fun v => .bind (hev.collect v) fun more => ?_
    refine .get fun h h' hc => .bind (.writeList r ?_) fun _ => .pure
    rw [hc.listItems, Array.map_append]
  · exact pop_carried r args
  · exact insert_carried r args
  · exact .bind (.ofExcept rfl) fun v => remove_carried r v
  · refine .get fun h h' hc => ?_
    rw [Array.toList_map]
    refine indexIn_carried _ args fun v => ?_
    rw [hc.written_value]
  · rw [Array.toList_map]
    exact .bind (.ofExcept rfl) fun v => countIn_carried _ v
  · refine .bind (.ofSame rfl) fun _ => .bind (.writeList r ?_) fun _ => .pure
    exact Array.map_reverse.symm
  · exact .bind (.ofSame rfl) fun _ => .bind (.writeList r Array.map_empty.symm) fun _ => .pure
  · exact .bind (.ofSame rfl) fun _ => .newList _
  · exact .faultOf (ρ.noAttribute_value (.list r) _)

end ListMethod

namespace TextMethod

open Stencil.TextMethod

theorem call_carried (hev : ρ.Evaluates ev) (s name : String) (args : List Value)
    (keywords : Bindings) : ρ.Carried ρ.value (call ev s name args keywords)
      (call ev s name (args.map ρ.value) (ρ.bindings keywords)) := by
  have hmissing := ρ.noAttribute_value (.str s) name
  unfold call
  dsimp only
  rw [Arguments.noKeywords_value, Arguments.nothing_value, Arguments.one_value]
  refine .checked ?_
  split
  · exact .bind (.ofSame rfl) fun _ => .pure
  · split
    · exact split_carried _ args keywords
    · exact .ofExcept (strip_value ρ args ..)
    · exact .ofExcept (strip_value ρ args ..)
    · exact .ofExcept (strip_value ρ args ..)
    · exact .bind (.ofSame (find_value ρ args ..)) fun _ => .pure
    · exact .bind (.ofSame (find_value ρ args ..)) fun _ => .pure
    · refine .bind (.ofSame (find_value ρ args ..)) fun found => ?_
      cases found with
      | some n => exact .pure
      | none => exact .fault _
    · refine .bind (.ofSame (find_value ρ args ..)) fun found => ?_
      cases found with
      | some n => exact .pure
      | none => exact .fault _
    · exact .bind (.ofSame (count_value ρ args _)) fun _ => .pure
    · exact .bind (.ofSame (isAtEnd_value ρ args ..)) fun _ => .pure
    · exact .bind (.ofSame (isAtEnd_value ρ args ..)) fun _ => .pure
    · exact .ofExcept (replace_value ρ args _)
    · exact .bind (.ofExcept rfl) fun v => join_carried hev s v
    · exact .faultOf hmissing

end TextMethod

namespace DictMethod

open Stencil.DictMethod

theorem keyWithDefault_value (name : String) (args : List Value) :
    keyWithDefault name (args.map ρ.value) = (keyWithDefault name args).map ρ.entry := by
  unfold keyWithDefault
  rw [Arguments.between_value, ρ.headD_values args rfl, ρ.getD_values args 1 rfl]
  exact Except.bind_same_eq_map fun _ => rfl

theorem call_carried (hev : ρ.Evaluates ev) (r : Ref) (name : String) (args : List Value)
    (keywords : Bindings) : ρ.Carried ρ.value (call ev r name args keywords)
      (call ev (ρ.cell r) name (args.map ρ.value) (ρ.bindings keywords)) := by
  unfold call
  dsimp only
  rw [Arguments.noKeywords_value, Arguments.nothing_value, Arguments.between_value,
    keyWithDefault_value, ρ.head?_values, List.length_map]
  refine .checked (.get fun h h' hc => ?_)
  rw [hc.dictEntries]
  split
  · refine .bind (.ofExcept rfl) fun given => ?_
    refine .bind (.ofExcept (hc.lookupKey?_value _ given.1)) fun found => .deliver ?_
    cases found <;> rfl
  · refine .bind (.ofExcept rfl) fun given => ?_
    refine .bind (.ofExcept (hc.lookupKey?_value _ given.1)) fun found => ?_
    cases found with
    | some v => exact .pure
    | none => exact .bind (.writeDict r Array.map_push.symm) fun _ => .pure
  · refine .bind (.ofExcept rfl) fun given => ?_
    refine .bind (.ofExcept (hc.eraseEntry_value _ given.1)) fun found => ?_
    cases found with
    | some v => exact .bind (.writeDict r rfl) fun _ => .pure
    | none =>
      dsimp only [Option.map_none]
      split
      · exact .pure
      · exact .ofExcept (hc.missingKey_value given.1)
  · refine .bind (.ofSame rfl) fun _ => ?_
    cases args.head? with
    | none => exact .bind (putNamed_carried r keywords) fun _ => .pure
    | some v =>
      exact .bind (hev.updateDict r v) fun _ => .bind (putNamed_carried r keywords) fun _ => .pure
  · refine .bind (.ofSame rfl) fun _ => ?_
    split
    · exact .pure
    · exact .pure
    · exact .pure
    · exact .newDict _
    · exact .bind (.writeDict r Array.map_empty.symm) fun _ => .pure
    · exact .faultOf (ρ.noAttribute_value (.dict r) _)

end DictMethod

namespace SetMethod

open Stencil.SetMethod

theorem remove_carried (r : Ref) (name : String) (v : Value) :
    ρ.Carried ρ.value (remove r name v) (remove (ρ.cell r) name (ρ.value v)) := by
  unfold remove
  refine .get fun h h' hc => ?_
  dsimp only
  rw [hc.setItems, Array.toList_map, hc.indexOfKey_value]
  refine .bind (.ofSame rfl) fun found => ?_
  cases found with
  | some i =>
    refine .bind (.writeSet r ?_) fun _ => .pure
    rw [List.map_toArray, List.eraseIdx_map]
  | none =>
    dsimp only [id]
    split
    · exact .ofExcept (hc.missingKey_value v)
    · exact .pure

theorem call_carried (r : Ref) (name : String) (args : List Value) (keywords : Bindings) :
    ρ.Carried ρ.value (call r name args keywords)
      (call (ρ.cell r) name (args.map ρ.value) (ρ.bindings keywords)) := by
  unfold call
  dsimp only
  rw [Arguments.noKeywords_value, Arguments.one_value, Arguments.nothing_value]
  refine .bind (.ofSame rfl) fun _ => .get fun h h' hc => ?_
  rw [hc.setItems, Array.toList_map]
  split
  · refine .bind (.ofExcept rfl) fun v => ?_
    have hmade := hc.setOf_value ((h.setItems r).toList ++ [v])
    rw [List.map_append] at hmade
    exact .bind (.ofExcept hmade) fun items => .bind (.write r (.set items)) fun _ => .pure
  · exact .bind (.ofExcept rfl) fun v => remove_carried r _ v
  · exact .bind (.ofExcept rfl) fun v => remove_carried r _ v
  · refine .bind (.ofSame rfl) fun _ => ?_
    split
    · rw [← List.map_toArray]
      exact .newSet _
    · exact .bind (.writeSet r Array.map_empty.symm) fun _ => .pure
    · exact .faultOf (ρ.noAttribute_value (.set r) _)

end SetMethod

theorem callTuple_carried (items : List Value) (name : String) (args : List Value)
    (keywords : Bindings) : ρ.Carried ρ.value (callTuple items name args keywords)
      (callTuple (items.map ρ.value) name (args.map ρ.value) (ρ.bindings keywords)) := by
  unfold callTuple
  rw [Arguments.noKeywords_value, Arguments.one_value]
  refine .bind (.ofSame rfl) fun _ => ?_
  split
  · exact indexIn_carried items args fun _ => rfl
  · exact .bind (.ofExcept rfl) fun v => countIn_carried items v

theorem callRange_carried (hev : ρ.Evaluates ev) (v : Value) (name : String) (args : List Value)
    (keywords : Bindings) : ρ.Carried ρ.value (callRange ev v name args keywords)
      (callRange ev (ρ.value v) name (args.map ρ.value) (ρ.bindings keywords)) := by
  unfold callRange
  rw [Arguments.noKeywords_value, Arguments.one_value]
  refine .bind (.ofSame rfl) fun _ => .bind (.ofExcept rfl) fun w => ?_
  refine .bind (hev.collect v) fun items => ?_
  rw [Array.toList_map]
  split
  · refine .get fun h h' hc => indexIn_carried items.toList [w] fun w => ?_
    rw [ρ.integer?_value, hc.written_value]
  · exact countIn_carried items.toList w

theorem callLoop_carried (r : Ref) (args : List Value) (keywords : Bindings) :
    ρ.Carried ρ.value (callLoop r args keywords)
      (callLoop (ρ.cell r) (args.map ρ.value) (ρ.bindings keywords)) := by
  cases keywords with
  | nil =>
    refine .get fun h h' hc => .deliver ?_
    rw [hc.loopState, List.isEmpty_map, Carries.cycle_loopState]
    split <;> rfl
  | cons e keywords => exact .fault _

theorem callMethod_carried (hev : ρ.Evaluates ev) (receiver : Value) (name : String)
    (args : List Value) (keywords : Bindings) :
    ρ.Carried ρ.value (callMethod ev receiver name args keywords)
      (callMethod ev (ρ.value receiver) name (args.map ρ.value) (ρ.bindings keywords)) := by
  have hother := ρ.noAttribute_value receiver name
  cases receiver with
  | str s => exact TextMethod.call_carried hev s name args keywords
  | list r => exact ListMethod.call_carried hev r name args keywords
  | dict r => exact DictMethod.call_carried hev r name args keywords
  | set r => exact SetMethod.call_carried r name args keywords
  | tuple items =>
    rw [value_tuple]
    exact callTuple_carried items name args keywords
  | range a b c => exact callRange_carried hev (.range a b c) name args keywords
  | loop r => exact callLoop_carried r args keywords
  | _ => exact .faultOf hother

theorem callUnbound_carried (hev : ρ.Evaluates ev) (kind : Builtin) (name : String)
    (args : List Value) (keywords : Bindings) :
    ρ.Carried ρ.value (callUnbound ev kind name args keywords)
      (callUnbound ev kind name (args.map ρ.value) (ρ.bindings keywords)) := by
  cases args with
  | nil => exact .fault _
  | cons receiver rest =>
    rw [List.map_cons]
    unfold callUnbound
    dsimp only
    rw [ρ.kindName_value]
    split
    · exact callMethod_carried hev receiver name rest keywords
    · exact .fault _

namespace Host

open Stencil.Host

theorem echo_carried (args : List Value) (keywords : Bindings) :
    ρ.Carried ρ.value (echo args keywords) (echo (args.map ρ.value) (ρ.bindings keywords)) := by
  have hsorted : (ρ.bindings keywords).mergeSort (fun a b => decide (a.1 ≤ b.1)) =
      (keywords.mergeSort fun a b => decide (a.1 ≤ b.1)).map ρ.binding :=
    (List.map_mergeSort (r := fun (a b : String × Value) => decide (a.1 ≤ b.1))
      (s := fun (a b : String × Value) => decide (a.1 ≤ b.1)) (f := ρ.binding)
      fun _ _ _ _ => rfl).symm
  unfold echo
  dsimp only
  rw [hsorted]
  refine .bind (f := List.map ρ.value) (.mapM (fun e => ?_) _) fun pairs => ?_
  · exact .newListOf [.str e.1, e.2]
  · rw [← List.map_append]
    exact .newListOf _

theorem next_carried (hev : ρ.Evaluates ev) (args : List Value) (keywords : Bindings) :
    ρ.Carried ρ.value (next ev args keywords)
      (next ev (args.map ρ.value) (ρ.bindings keywords)) := by
  unfold next
  rw [Arguments.noKeywords_value, Arguments.between_value, ρ.headD_values args rfl,
    ρ.getElem?_values]
  refine .bind (.ofSame rfl) fun _ => ?_
  have hother := congrArg (fun kind => Fault.type ("'" ++ kind ++ "' object is not an iterator"))
    (ρ.kindName_value (args.headD .none))
  generalize args.headD .none = v at hother ⊢
  cases v with
  | iterator kind r =>
    refine .bind (hev.next (.iterator kind r)) fun item => ?_
    cases item with
    | some v => exact .pure
    | none =>
      cases args[1]? with
      | some v => exact .pure
      | none => exact .fault _
  | _ => exact .faultOf hother

theorem call_carried (hev : ρ.Evaluates ev) (f : HostFunction) (args : List Value)
    (keywords : Bindings) : ρ.Carried ρ.value (call ev f args keywords)
      (call ev f (args.map ρ.value) (ρ.bindings keywords)) := by
  cases f with
  | url => exact .ofExcept (url_value ρ args keywords)
  | boom => exact .ofExcept (fails_value ρ keywords ..)
  | boomEmpty => exact .ofExcept (fails_value ρ keywords ..)
  | boomPad => exact .ofExcept (fails_value ρ keywords ..)
  | echo => exact echo_carried args keywords
  | next => exact next_carried hev args keywords

end Host

namespace Closure

theorem frameOf_carried (c : Closure) (call : Closure.Call) :
    ρ.Carried ρ.bindings (c.frameOf call) ((ρ.closure c).frameOf (ρ.boundCall call)) := by
  have hspare : ((ρ.bindings call.spare).map fun e => (Value.str e.1, e.2)).toArray =
      (call.spare.map fun e => (Value.str e.1, e.2)).toArray.map ρ.entry := by
    unfold bindings
    rw [List.map_toArray, List.map_map, List.map_map]
    rfl
  have hrest : (c.parameters.rest.toList.map fun p => (p, Value.tuple (call.rest.map ρ.value))) =
      ρ.bindings (c.parameters.rest.toList.map fun p => (p, Value.tuple call.rest)) := by
    unfold bindings
    rw [List.map_map]
    refine List.map_congr_left fun p _ => ?_
    rw [Function.comp_apply, binding, value_tuple]
  have hnamed : ρ.Carried ρ.bindings
      (c.parameters.restKeywords.toList.mapM fun p => do
        let d ← Eval.newDict (call.spare.map fun e => (Value.str e.1, e.2)).toArray
        return (p, d))
      (c.parameters.restKeywords.toList.mapM fun p => do
        let d ← Eval.newDict ((call.spare.map fun e => (Value.str e.1, e.2)).toArray.map ρ.entry)
        return (p, d)) := by
    refine .mapM_same (f := ρ.binding) (fun p => ?_) _
    exact .bind (.newDict _) fun d => .pure
  unfold Closure.frameOf
  change ρ.Carried ρ.bindings _ (do
    let spare ← c.parameters.restKeywords.toList.mapM fun p => do
      let d ← Eval.newDict ((ρ.bindings call.spare).map fun e => (Value.str e.1, e.2)).toArray
      return (p, d)
    return (ρ.bindings call.bound ++
      (c.parameters.rest.toList.map fun p => (p, Value.tuple (call.rest.map ρ.value))) ++
        spare).map fun e => (Variable.own e.1, e.2))
  rw [hspare, hrest]
  refine .bind hnamed fun spare => .deliver ?_
  rw [← ρ.bindings_append, ← ρ.bindings_append]
  unfold bindings
  rw [List.map_map, List.map_map]
  rfl

theorem call_carried (hev : ρ.Evaluates ev) (c : Closure) (args : List Value)
    (keywords : Bindings) : ρ.Carried ρ.value (c.call ev args keywords)
      ((ρ.closure c).call ev (args.map ρ.value) (ρ.bindings keywords)) := by
  refine .bind (.ofExcept (bind_value ρ args keywords c)) fun bound => ?_
  refine .bind (frameOf_carried c bound) fun frame => .bind (.newFrame frame) fun r => ?_
  exact .nested 1 (hev.eval (c.bodyScope r) c.body)

end Closure

theorem callValue_carried (hev : ρ.Evaluates ev) (f : Value) (args : List Value)
    (keywords : Bindings) : ρ.Carried ρ.value (ev.callValue f args keywords)
      (ev.callValue (ρ.value f) (args.map ρ.value) (ρ.bindings keywords)) := by
  have hother := congrArg (fun kind => Fault.type ("'" ++ kind ++ "' object is not callable"))
    (ρ.kindName_value f)
  cases f with
  | builtin b => exact Builtins.call_carried hev args keywords b
  | generic b parameter => exact Builtins.call_carried hev args keywords b
  | host f => exact Host.call_carried hev f args keywords
  | method receiver name => exact callMethod_carried hev receiver name args keywords
  | unboundMethod b name => exact callUnbound_carried hev b name args keywords
  | undefined => exact .pure
  | function r =>
    refine .get fun h h' hc => ?_
    rw [hc.closure?]
    cases h.closure? r with
    | some c => exact Closure.call_carried hev c args keywords
    | none => exact .pure
  | _ => exact .faultOf hother

end Renaming

end Stencil
