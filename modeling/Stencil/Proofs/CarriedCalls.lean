import Mathlib.Data.List.InsertIdx
import Stencil.Proofs.CarriedArguments
import Stencil.Proofs.CarriedEvaluation

/-!
# Calls in renamed heaps

Called with renamed arguments, a builtin function, a method, a function of the surrounding
program or an anonymous function delivers the renamed result.
-/

namespace Stencil

namespace Renaming

variable {ρ : Renaming} {ev : Evaluator}

namespace Builtins

open Stencil.Builtins

variable (args : List Value) (keywords : Bindings)

theorem len_carried : ρ.Carried ρ.value (len args keywords)
    (len (args.map ρ.value) (ρ.bindings keywords)) := by
  unfold len
  rw [Arguments.noKeywords_value]
  refine .bind (.ofSame rfl) fun _ => .bind (.ofExcept (Arguments.one_value ρ args "len")) fun v => ?_
  refine .get fun h h' hc => ?_
  rw [hc.lengthOf_value]
  exact .bind (.ofSame rfl) fun n => .pure

theorem str_carried : ρ.Carried ρ.value (str args keywords)
    (str (args.map ρ.value) (ρ.bindings keywords)) := by
  unfold str
  rw [Arguments.atMost_value, Arguments.onlyKeywords_value]
  refine .bind (.ofSame rfl) fun _ => ?_
  dsimp only
  rw [ρ.given_value, ρ.given_value, ρ.given_value]
  cases (args[0]?).or (keywords.get? "object") with
  | none => exact .pure
  | some v =>
    have hdecoded (encoding handling : Option Value) : ρ.Carried ρ.value
        (do return .str (← Eval.ofExcept (decoded v encoding handling)))
        (do return .str (← Eval.ofExcept
          (decoded (ρ.value v) (encoding.map ρ.value) (handling.map ρ.value)))) := by
      rw [decoded_value]
      exact .bind (.ofSame rfl) fun s => .pure
    generalize (args[1]?).or (keywords.get? "encoding") = encoding,
      (args[2]?).or (keywords.get? "errors") = handling
    cases encoding with
    | some encoding => exact hdecoded (some encoding) handling
    | none =>
      cases handling with
      | some handling => exact hdecoded none (some handling)
      | none =>
        refine .get fun h h' hc => ?_
        rw [hc.text_value]
        exact .bind (.ofSame rfl) fun s => .pure

theorem bool_carried : ρ.Carried ρ.value (Stencil.Builtins.bool args keywords)
    (Stencil.Builtins.bool (args.map ρ.value) (ρ.bindings keywords)) := by
  unfold Stencil.Builtins.bool
  rw [Arguments.noKeywords_value, Arguments.between_value]
  refine .bind (.ofSame rfl) fun _ => .get fun h h' hc => .deliver ?_
  rw [List.any_map]
  simp only [Function.comp_def, hc.truth_value]
  rfl

theorem enumerate_carried : ρ.Carried ρ.value (enumerate args keywords)
    (enumerate (args.map ρ.value) (ρ.bindings keywords)) := by
  refine .bind (.ofExcept (enumerateArguments_value ρ args keywords)) fun given => ?_
  obtain ⟨v, start⟩ := given
  dsimp only [Prod.map]
  rw [ρ.optionGetD_value rfl, Arguments.integer_value]
  refine .bind (.ofSame rfl) fun start => .bind (toIterator_carried v) fun it => ?_
  exact .newIterator .enumerate (.enumerate it start)

theorem zip_carried : ρ.Carried ρ.value (zip args keywords)
    (zip (args.map ρ.value) (ρ.bindings keywords)) := by
  unfold zip
  rw [Arguments.onlyKeywords_value, ρ.bindings_get?]
  refine .bind (.ofSame rfl) fun _ => .get fun h h' hc => ?_
  rw [Option.any_map]
  simp only [hc.truth_value]
  exact .bind (.mapM toIterator_carried args) fun inner => .newIterator .zip (.zip inner _)

theorem reversed_carried : ρ.Carried ρ.value (reversed args keywords)
    (reversed (args.map ρ.value) (ρ.bindings keywords)) := by
  unfold reversed
  rw [Arguments.noKeywords_value, Arguments.between_value, ρ.headD_values args rfl]
  refine .bind (.ofSame rfl) fun _ => .get fun h h' hc => ?_
  dsimp only
  have hbackward (kind : ViewKind) (r : Ref) : ρ.Carried ρ.value
      (Eval.newIterator (.dictReversed kind)
        (.dictBackward kind r (h.dictEntries r).size (h.dictEntries r).size))
      (Eval.newIterator (.dictReversed kind)
        (.dictBackward kind (ρ.cell r) (h'.dictEntries (ρ.cell r)).size
          (h'.dictEntries (ρ.cell r)).size)) := by
    rw [hc.dictEntries, Array.size_map]
    exact .newIterator _ (.dictBackward kind r _ _)
  have hother := congrArg (fun kind => Fault.type ("'" ++ kind ++ "' object is not reversible"))
    (ρ.kindName_value (args.headD .none))
  generalize args.headD .none = v at hother ⊢
  cases v with
  | list r =>
    dsimp only [value]
    rw [hc.listItems, Array.size_map]
    exact .newIterator _ (.listBackward r _)
  | dict r => exact hbackward .keys r
  | view kind r => exact hbackward kind r
  | range a b c => exact .newIterator _ (.range _ _ _)
  | str s =>
    dsimp only [value]
    rw [← List.map_reverse]
    exact newItems_carried _ (fun c => rfl) _
  | tuple items =>
    rw [value_tuple]
    dsimp only
    rw [← List.map_reverse]
    exact .newIterator _ (.items items.reverse)
  | bytes b =>
    dsimp only [value]
    rw [← List.map_reverse]
    exact newItems_carried _ (fun c => rfl) _
  | undefined => exact .newIterator _ (.items [])
  | row r => exact .fault _
  | _ => exact .faultOf hother

theorem isBefore_carried (op : Value.Order) (a b : Value) :
    ρ.Carried id (isBefore op a b) (isBefore op (ρ.value a) (ρ.value b)) := by
  refine .get fun h h' hc => ?_
  rw [hc.order_value]
  exact .ofSame rfl

end Builtins

namespace Sorting

open Stencil.Sorting

variable {α β : Type} {f : α → β} {before : α → α → Eval Bool} {before' : β → β → Eval Bool}
  (hb : ∀ a b, ρ.Carried id (before a b) (before' (f a) (f b)))

include hb

theorem runLength_carried (falling : Bool) (previous : α) (items : List α) :
    ρ.Carried id (runLength before falling previous items)
      (runLength before' falling (f previous) (items.map f)) := by
  induction items generalizing previous with
  | nil => exact .pure (a := 0)
  | cons a rest ih =>
    refine .bind (hb a previous) fun falls => ?_
    dsimp only [id]
    split
    · exact .bind (ih a) fun n => .pure
    · exact .pure (a := 0)

theorem place_carried (items : Array α) (a : α) (low fuel high : Nat) :
    ρ.Carried id (Stencil.Sorting.place before items a low fuel high)
      (Stencil.Sorting.place before' (items.map f) (f a) low fuel high) := by
  induction fuel generalizing low high with
  | zero =>
    unfold Stencil.Sorting.place
    exact .pure (a := low)
  | succ fuel ih =>
    unfold Stencil.Sorting.place
    split
    · dsimp only
      rw [Array.getElem?_map]
      cases items[low + (high - low) / 2]? with
      | none => exact .pure (a := low)
      | some b =>
        refine .bind (hb a b) fun isBefore => ?_
        dsimp only [id]
        split
        · exact ih _ _
        · exact ih _ _
    · exact .pure (a := low)

theorem insert_carried (sorted : Array α) (a : α) :
    ρ.Carried (Array.map f) (Stencil.Sorting.insert before sorted a)
      (Stencil.Sorting.insert before' (sorted.map f) (f a)) := by
  unfold Stencil.Sorting.insert
  rw [Array.size_map]
  refine .bind (place_carried hb _ _ _ _ _) fun i => .deliver ?_
  unfold Array.insertIdxIfInBounds
  by_cases hi : i ≤ sorted.size
  · rw [dif_pos hi, dif_pos (Array.size_map (f := f) ▸ hi)]
    apply Array.ext'
    rw [Array.toList_insertIdx, Array.toList_map, Array.toList_map, Array.toList_insertIdx,
      List.map_insertIdx]
    rfl
  · rw [dif_neg hi, dif_neg (Array.size_map (f := f) ▸ hi)]

theorem sort_carried (items : List α) :
    ρ.Carried (List.map f) (sort before items) (sort before' (items.map f)) := by
  match items with
  | [] => exact .pure
  | [a] => exact .pure
  | a :: b :: rest =>
    refine .bind (hb b a) fun falling => ?_
    refine .bind (runLength_carried hb falling b rest) fun n => ?_
    have hrun : (if falling then (((a :: b :: rest).map f).take (n + 2)).reverse
        else ((a :: b :: rest).map f).take (n + 2)).toArray =
        (if falling then ((a :: b :: rest).take (n + 2)).reverse
          else (a :: b :: rest).take (n + 2)).toArray.map f := by
      rw [List.map_toArray, ← List.map_take, ← List.map_reverse]
      cases falling <;> rfl
    change ρ.Carried (List.map f) _ (do
      let sorted ← (((a :: b :: rest).map f).drop (n + 2)).foldlM (Stencil.Sorting.insert before')
        (if falling then (((a :: b :: rest).map f).take (n + 2)).reverse
          else ((a :: b :: rest).map f).take (n + 2)).toArray
      return sorted.toList)
    rw [hrun, ← List.map_drop]
    exact .bind (.foldlM (insert_carried hb) _ _) fun sorted => .deliver Array.toList_map

end Sorting

theorem Carried.checked {α β : Type} {f : α → β} {c : Prop} [Decidable c] {e : Except Fault PUnit}
    {k : PUnit → Eval α} {k' : PUnit → Eval β} (hk : ρ.Carried f (k ⟨⟩) (k' ⟨⟩)) :
    ρ.Carried f (if c then Eval.ofExcept e >>= k else k ⟨⟩)
      (if c then Eval.ofExcept e >>= k' else k' ⟨⟩) := by
  split
  · exact .bind (.ofSame rfl) fun _ => hk
  · exact hk

theorem putNamed_carried (r : Ref) (keywords : Bindings) : ρ.Carried id
    (keywords.forM fun (k, v) => do
      let h ← get
      Eval.write r (.dict (← Eval.ofExcept (Value.putEntry h (h.dictEntries r) (.str k) v))))
    ((ρ.bindings keywords).forM fun (k, v) => do
      let h ← get
      Eval.write (ρ.cell r) (.dict (← Eval.ofExcept
        (Value.putEntry h (h.dictEntries (ρ.cell r)) (.str k) v)))) :=
  .forM (e := ρ.binding) (fun e => putEntry_carried r (.str e.1) e.2) keywords

namespace Builtins

open Stencil.Builtins

variable (hev : ρ.Evaluates ev) (args : List Value) (keywords : Bindings)

include hev

theorem list_carried : ρ.Carried ρ.value (list ev args keywords)
    (list ev (args.map ρ.value) (ρ.bindings keywords)) := by
  unfold list
  rw [Arguments.noKeywords_value, Arguments.between_value]
  refine .bind (.ofSame rfl) fun _ => ?_
  cases args with
  | nil => exact .newListOf []
  | cons v rest => exact .bind (hev.collect v) fun items => .newList items

theorem dict_carried : ρ.Carried ρ.value (dict ev args keywords)
    (dict ev (args.map ρ.value) (ρ.bindings keywords)) := by
  have hempty := Carried.allocate (ρ := ρ) (.dict #[])
  rw [heapCell, Array.map_empty] at hempty
  unfold dict
  rw [Arguments.between_value, ρ.head?_values]
  refine .bind (.ofSame rfl) fun _ => .bind hempty fun r => ?_
  cases args.head? with
  | none => exact .bind (putNamed_carried r keywords) fun _ => .pure
  | some v =>
    exact .bind (hev.updateDict r v) fun _ => .bind (putNamed_carried r keywords) fun _ => .pure

theorem keyOf_carried (key : Option Value) (v : Value) :
    ρ.Carried ρ.value (keyOf ev key v) (keyOf ev (key.map ρ.value) (ρ.value v)) := by
  cases key with
  | none => exact .pure
  | some f =>
    have hcall := hev.call f [v] []
    cases f with
    | none => exact .pure
    | _ => exact hcall

theorem sorted_carried : ρ.Carried ρ.value (sorted ev args keywords)
    (sorted ev (args.map ρ.value) (ρ.bindings keywords)) := by
  have hsort (pairs : List (Value × Value)) : ρ.Carried (List.map ρ.entry)
      (Stencil.Sorting.sort (fun a b => isBefore .less a.1 b.1) pairs)
      (Stencil.Sorting.sort (fun a b => isBefore .less a.1 b.1) (pairs.map ρ.entry)) :=
    Sorting.sort_carried (fun a b => isBefore_carried .less a.1 b.1) pairs
  have hitems (pairs : List (Value × Value)) : ρ.Carried ρ.value
      (Eval.newList (pairs.map (·.2)).toArray)
      (Eval.newList ((pairs.map ρ.entry).map (·.2)).toArray) := by
    have hmap : (pairs.map ρ.entry).map (·.2) = (pairs.map (·.2)).map ρ.value := by
      rw [List.map_map, List.map_map]
      rfl
    rw [hmap]
    exact .newListOf _
  unfold sorted
  rw [Arguments.between_value, Arguments.onlyKeywords_value, ρ.headD_values args rfl,
    ρ.bindings_get?, ρ.bindings_get?, ρ.optionGetD_value rfl, Arguments.integer_value]
  refine .bind (.ofSame rfl) fun _ => .bind (hev.collect _) fun items => ?_
  refine .bind (.ofSame rfl) fun _ => .bind (.ofSame rfl) fun backward => ?_
  rw [Array.toList_map]
  refine .bind (f := List.map ρ.entry) (.mapM (fun v => ?_) items.toList) fun pairs => ?_
  · exact .bind (keyOf_carried hev _ v) fun k => .pure
  · dsimp only [id]
    split
    · exact .bind (hsort pairs) hitems
    · rw [← List.map_reverse]
      exact .bind (.map (hsort pairs.reverse) fun _ => List.map_reverse.symm) hitems

theorem better_carried (op : Value.Order) (key : Option Value) (best : Option (Value × Value))
    (v : Value) : ρ.Carried (stepped (Option.map ρ.entry))
      (do
        let k ← keyOf ev key v
        match best with
        | none => return ForInStep.yield (some (k, v))
        | some (k', v') =>
          if ← isBefore op k k' then return .yield (some (k, v)) else return .yield (some (k', v')))
      (do
        let k ← keyOf ev (key.map ρ.value) (ρ.value v)
        match best.map ρ.entry with
        | none => return ForInStep.yield (some (k, ρ.value v))
        | some (k', v') =>
          if ← isBefore op k k' then return .yield (some (k, ρ.value v))
          else return .yield (some (k', v'))) := by
  refine .bind (keyOf_carried hev key v) fun k => ?_
  cases best with
  | none => exact .pure (f := stepped (Option.map ρ.entry)) (a := .yield (some (k, v)))
  | some e =>
    refine .bind (isBefore_carried op k e.1) fun better => ?_
    dsimp only [id]
    split
    · exact .pure (f := stepped (Option.map ρ.entry)) (a := .yield (some (k, v)))
    · exact .pure (f := stepped (Option.map ρ.entry)) (a := .yield (some (e.1, e.2)))

omit hev in
theorem candidates_value : candidates (args.map ρ.value) = ρ.value (candidates args) := by
  match args with
  | [] => rfl
  | [v] => rfl
  | v :: w :: rest => exact (ρ.value_tuple (v :: w :: rest)).symm

theorem extreme_carried (title : String) (op : Value.Order) :
    ρ.Carried ρ.value (extreme ev title op args keywords)
      (extreme ev title op (args.map ρ.value) (ρ.bindings keywords)) := by
  unfold extreme
  rw [List.isEmpty_map, Arguments.onlyKeywords_value, List.length_map, ρ.bindings_get?,
    ρ.bindings_get?, candidates_value]
  dsimp only
  rw [Option.isSome_map]
  split
  · exact .failed _
  · refine .bind (.ofSame rfl) fun _ => ?_
    split
    · exact .failed _
    · refine .bind (toIterator_carried _) fun it => ?_
      refine .bind (hev.walk (f := Option.map ρ.entry) it
        (fun best v => better_carried hev op _ best v) _ rfl) fun best => ?_
      cases best with
      | some e => exact .pure
      | none =>
        cases keywords.get? "default" with
        | some v => exact .pure
        | none => exact .fault _

theorem sum_carried : ρ.Carried ρ.value (sum ev args keywords)
    (sum ev (args.map ρ.value) (ρ.bindings keywords)) := by
  have htotal (it start : Value) : ρ.Carried ρ.value
      (ev.walk it (fun total v => do return .yield (← Value.operate .add total v))
        Evaluator.mostItems start)
      (ev.walk (ρ.value it) (fun total v => do return .yield (← Value.operate .add total v))
        Evaluator.mostItems (ρ.value start)) :=
    hev.walk it (fun total v => .bind (operate_carried .add total v) fun w =>
      .pure (f := stepped ρ.value) (a := .yield w)) _ rfl
  unfold sum
  rw [List.isEmpty_map, Arguments.atMost_value, Arguments.onlyKeywords_value, ρ.given_value,
    ρ.optionGetD_value rfl, ρ.headD_values args rfl]
  split
  · exact .failed _
  · refine .bind (.ofSame rfl) fun _ => .bind (toIterator_carried _) fun it => ?_
    have htotal := htotal it (((args[1]?).or (keywords.get? "start")).getD (.int 0))
    generalize ((args[1]?).or (keywords.get? "start")).getD (.int 0) = start at htotal ⊢
    cases start with
    | str s => exact .failed _
    | bytes b => exact .failed _
    | _ => exact htotal

theorem call_carried (b : Builtin) : ρ.Carried ρ.value (call ev b args keywords)
    (call ev b (args.map ρ.value) (ρ.bindings keywords)) := by
  cases b with
  | range => exact .ofExcept (range_value ρ args keywords)
  | len => exact len_carried args keywords
  | str => exact str_carried args keywords
  | int => exact .ofExcept (int_value ρ args keywords)
  | float => exact .ofExcept (float_value ρ args keywords)
  | bool => exact bool_carried args keywords
  | list => exact list_carried hev args keywords
  | dict => exact dict_carried hev args keywords
  | enumerate => exact enumerate_carried args keywords
  | zip => exact zip_carried args keywords
  | sorted => exact sorted_carried hev args keywords
  | reversed => exact reversed_carried args keywords
  | min => exact extreme_carried hev args keywords _ _
  | max => exact extreme_carried hev args keywords _ _
  | sum => exact sum_carried hev args keywords
  | abs => exact .ofExcept (abs_value ρ args keywords)
  | round => exact .ofExcept (round_value ρ args keywords)

end Builtins

end Renaming

end Stencil
