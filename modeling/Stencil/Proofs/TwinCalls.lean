import Stencil.Proofs.TwinEvaluation

/-!
# Twins of calls

Builtin functions, methods and functions of the surrounding program come to expressions only
through the evaluator they are given: through the functions among their arguments and through
iterators. So they end alike with paired evaluators.
-/

namespace Stencil

variable {l : Leeway} {frames : Array Frame} {ev ev' : Evaluator} (hev : ev.Paired l ev')

theorem Twin.checked {α : Type} {c : Prop} [Decidable c] {e : Except Fault PUnit}
    {k k' : PUnit → Eval α}
    (hk : ∀ frames', Grows frames frames' → Twin l Same frames' (k ⟨⟩) (k' ⟨⟩)) :
    Twin l Same frames (if c then Eval.ofExcept e >>= k else k ⟨⟩)
      (if c then Eval.ofExcept e >>= k' else k' ⟨⟩) := by
  split
  · exact .bind (.ofExcept e) fun frames' _ hg => hk frames' hg
  · exact hk frames (.refl _)

namespace Builtins

theorem putNamed_plain (r : Ref) (keywords : Bindings) : Plain (keywords.forM fun (k, v) => do
    let h ← get
    Eval.write r (.dict (← Eval.ofExcept (Value.putEntry h (h.dictEntries r) (.str k) v)))) := by
  refine .forM (fun e => .get (fun h h' l => ?_) fun h => ?_) keywords
  · rw [l.putEntry, l.dictEntries]
  · exact .bind (.ofExcept _) fun entries => .write r trivial

include hev

theorem list_twin (args : List Value) (keywords : Bindings) :
    Twin l Same frames (list ev args keywords) (list ev' args keywords) := by
  unfold list
  refine .bind (.ofExcept _) fun _ _ _ => ?_
  split
  · exact (Plain.newList _).twin
  · exact .bind (ev.collect_twin hev _) fun _ items _ => (Plain.newList items).twin

theorem dict_twin (args : List Value) (keywords : Bindings) :
    Twin l Same frames (dict ev args keywords) (dict ev' args keywords) := by
  unfold dict
  refine .bind (.ofExcept _) fun _ _ _ => ?_
  refine .bind (Plain.allocate (c := .dict #[]) trivial).twin fun _ r _ => ?_
  have hdone : Plain (do
      keywords.forM fun (k, v) => do
        let h ← get
        Eval.write r (.dict (← Eval.ofExcept (Value.putEntry h (h.dictEntries r) (.str k) v)))
      return Value.dict r) :=
    .bind (putNamed_plain r keywords) fun _ => .pure _
  dsimp only
  split
  · exact .bind (Evaluator.updateDict_twin hev r _) fun _ _ _ => hdone.twin
  · exact hdone.twin

theorem keyOf_twin (key : Option Value) (v : Value) :
    Twin l Same frames (keyOf ev key v) (keyOf ev' key v) := by
  unfold keyOf
  split
  · exact .pure v
  · exact .pure v
  · exact hev.call _ _ _

theorem sorted_twin (args : List Value) (keywords : Bindings) :
    Twin l Same frames (sorted ev args keywords) (sorted ev' args keywords) := by
  have hsort (pairs : List (Value × Value)) :
      Plain (Sorting.sort (fun a b => isBefore .less a.1 b.1) pairs) :=
    Sorting.sort_plain (fun a b => isBefore_plain _ _ _) pairs
  unfold sorted
  refine .bind (.ofExcept _) fun _ _ _ => .bind (Evaluator.collect_twin hev _) fun _ items _ => ?_
  refine .bind (.ofExcept _) fun _ _ _ => .bind (.ofExcept _) fun _ backward _ => ?_
  refine .bind (.mapM _ fun _ _ v _ => ?_) fun _ pairs _ => ?_
  · exact .bind (keyOf_twin hev _ v) fun _ k _ => .pure _
  · dsimp only
    split
    · exact .bind (hsort pairs).twin fun _ _ _ => (Plain.newList _).twin
    · exact .bind (hsort pairs.reverse).map.twin fun _ _ _ => (Plain.newList _).twin

theorem better_twin (op : Value.Order) (key : Option Value) (best : Option (Value × Value))
    (v : Value) : Twin l Same frames
      (do
        let k ← keyOf ev key v
        match best with
        | none => return ForInStep.yield (some (k, v))
        | some (k', v') =>
          if ← isBefore op k k' then return .yield (some (k, v)) else return .yield (some (k', v')))
      (do
        let k ← keyOf ev' key v
        match best with
        | none => return ForInStep.yield (some (k, v))
        | some (k', v') =>
          if ← isBefore op k k' then return .yield (some (k, v))
          else return .yield (some (k', v'))) := by
  refine .bind (keyOf_twin hev key v) fun _ k _ => ?_
  split
  · exact .pure _
  · refine .bind (isBefore_plain op k _).twin fun _ better _ => ?_
    split
    · exact .pure _
    · exact .pure _

theorem extreme_twin (title : String) (op : Value.Order) (args : List Value)
    (keywords : Bindings) : Twin l Same frames (extreme ev title op args keywords)
      (extreme ev' title op args keywords) := by
  unfold extreme
  dsimp only
  split
  · exact .failed _
  · refine .bind (.ofExcept _) fun _ _ _ => ?_
    split
    · exact .failed _
    · refine .bind (toIterator_plain _).twin fun _ it _ => ?_
      refine .bind (ev.walk_twin hev it (fun best v => better_twin hev op _ best v) _ _)
        fun _ best _ => ?_
      split
      · exact .pure _
      · exact .pure _
      · exact .fault _

theorem sum_twin (args : List Value) (keywords : Bindings) :
    Twin l Same frames (sum ev args keywords) (sum ev' args keywords) := by
  unfold sum
  dsimp only
  split
  · exact .failed _
  · refine .bind (.ofExcept _) fun _ _ _ => .bind (toIterator_plain _).twin fun _ it _ => ?_
    split
    · exact .failed _
    · exact .failed _
    · refine ev.walk_twin hev it (fun total v => ?_) _ _
      exact .bind (operate_plain _ _ _).twin fun _ _ _ => .pure _

theorem call_twin (b : Builtin) (args : List Value) (keywords : Bindings) :
    Twin l Same frames (call ev b args keywords) (call ev' b args keywords) := by
  cases b with
  | range => exact .ofExcept _
  | len => exact (len_plain args keywords).twin
  | str => exact (str_plain args keywords).twin
  | int => exact .ofExcept _
  | float => exact .ofExcept _
  | bool => exact (bool_plain args keywords).twin
  | list => exact list_twin hev args keywords
  | dict => exact dict_twin hev args keywords
  | enumerate => exact (enumerate_plain args keywords).twin
  | zip => exact (zip_plain args keywords).twin
  | sorted => exact sorted_twin hev args keywords
  | reversed => exact (reversed_plain args keywords).twin
  | min => exact extreme_twin hev _ _ args keywords
  | max => exact extreme_twin hev _ _ args keywords
  | sum => exact sum_twin hev args keywords
  | abs => exact .ofExcept _
  | round => exact .ofExcept _

end Builtins

include hev

theorem TextMethod.join_twin (s : String) (v : Value) :
    Twin l Same frames (TextMethod.join ev s v) (TextMethod.join ev' s v) := by
  refine .bind (toIterator?_plain v).twin fun _ it _ => ?_
  split
  · exact .fault _
  · refine .bind (ev.drain_twin hev _) fun _ items _ => ?_
    refine .bind (Plain.mapM (fun e => ?_) _).twin fun _ parts _ => .pure _
    obtain ⟨item, i⟩ := e
    dsimp only
    split
    · exact .pure _
    · exact .typeFault _

theorem TextMethod.call_twin (s name : String) (args : List Value) (keywords : Bindings) :
    Twin l Same frames (TextMethod.call ev s name args keywords)
      (TextMethod.call ev' s name args keywords) := by
  unfold TextMethod.call
  dsimp only
  refine .checked fun _ _ => ?_
  split
  · exact .bind (.ofExcept _) fun _ _ _ => .pure _
  · split
    · exact (split_plain _ args keywords).twin
    · exact .ofExcept _
    · exact .ofExcept _
    · exact .ofExcept _
    · exact .bind (.ofExcept _) fun _ _ _ => .pure _
    · exact .bind (.ofExcept _) fun _ _ _ => .pure _
    · refine .bind (.ofExcept _) fun _ found _ => ?_
      split
      · exact .pure _
      · exact .fault _
    · refine .bind (.ofExcept _) fun _ found _ => ?_
      split
      · exact .pure _
      · exact .fault _
    · exact .bind (.ofExcept _) fun _ _ _ => .pure _
    · exact .bind (.ofExcept _) fun _ _ _ => .pure _
    · exact .bind (.ofExcept _) fun _ _ _ => .pure _
    · exact .ofExcept _
    · exact .bind (.ofExcept _) fun _ v _ => join_twin hev s v
    · exact .fault _

theorem ListMethod.call_twin (r : Ref) (name : String) (args : List Value) (keywords : Bindings) :
    Twin l Same frames (ListMethod.call ev r name args keywords)
      (ListMethod.call ev' r name args keywords) := by
  unfold ListMethod.call
  dsimp only
  refine .bind (.ofExcept _) fun _ _ _ => .get (fun h h' l => ?_) fun h => ?_
  · simp only [l.listItems]
  · split
    · exact .bind (.ofExcept _) fun _ v _ =>
        .bind (Plain.write (c := .list _) r trivial).twin fun _ _ _ => .pure _
    · refine .bind (.ofExcept _) fun _ v _ => .bind (ev.collect_twin hev v) fun _ more _ => ?_
      refine .get (fun h h' l => ?_) fun h => ?_
      · rw [l.listItems]
      · exact .bind (Plain.write (c := .list _) r trivial).twin fun _ _ _ => .pure _
    · exact (pop_plain r args).twin
    · exact (insert_plain r args).twin
    · exact .bind (.ofExcept _) fun _ v _ => (remove_plain r v).twin
    · refine .get (fun h h' l => ?_) fun h => (indexIn_plain _ args).twin
      rw [l.written]
    · exact .bind (.ofExcept _) fun _ v _ => (countIn_plain _ v).twin
    · exact .bind (.ofExcept _) fun _ _ _ =>
        .bind (Plain.write (c := .list _) r trivial).twin fun _ _ _ => .pure _
    · exact .bind (.ofExcept _) fun _ _ _ =>
        .bind (Plain.write (c := .list _) r trivial).twin fun _ _ _ => .pure _
    · exact .bind (.ofExcept _) fun _ _ _ => (Plain.newList _).twin
    · exact .fault _

theorem DictMethod.call_twin (r : Ref) (name : String) (args : List Value) (keywords : Bindings) :
    Twin l Same frames (DictMethod.call ev r name args keywords)
      (DictMethod.call ev' r name args keywords) := by
  have hdone : Plain (do
      keywords.forM fun (k, v) => do
        let h ← get
        Eval.write r (.dict (← Eval.ofExcept (Value.putEntry h (h.dictEntries r) (.str k) v)))
      return Value.none) :=
    .bind (Builtins.putNamed_plain r keywords) fun _ => .pure _
  unfold DictMethod.call
  dsimp only
  refine .checked fun _ _ => .get (fun h h' l => ?_) fun h => ?_
  · simp only [l.dictEntries, l.lookupKey?, l.eraseEntry, l.missingKey]
  · split
    · exact .bind (.ofExcept _) fun _ _ _ => .bind (.ofExcept _) fun _ found _ => .pure _
    · refine .bind (.ofExcept _) fun _ _ _ => .bind (.ofExcept _) fun _ found _ => ?_
      split
      · exact .pure _
      · exact .bind (Plain.write (c := .dict _) r trivial).twin fun _ _ _ => .pure _
    · refine .bind (.ofExcept _) fun _ _ _ => .bind (.ofExcept _) fun _ found _ => ?_
      split
      · exact .bind (Plain.write (c := .dict _) r trivial).twin fun _ _ _ => .pure _
      · split
        · exact .pure _
        · exact .ofExcept _
    · refine .bind (.ofExcept _) fun _ _ _ => ?_
      split
      · exact .bind (ev.updateDict_twin hev r _) fun _ _ _ => hdone.twin
      · exact hdone.twin
    · refine .bind (.ofExcept _) fun _ _ _ => ?_
      split
      · exact .pure _
      · exact .pure _
      · exact .pure _
      · exact (Plain.newDict _).twin
      · exact .bind (Plain.write (c := .dict _) r trivial).twin fun _ _ _ => .pure _
      · exact .fault _

theorem callRange_twin (v : Value) (name : String) (args : List Value) (keywords : Bindings) :
    Twin l Same frames (callRange ev v name args keywords)
      (callRange ev' v name args keywords) := by
  refine .bind (.ofExcept _) fun _ _ _ => .bind (.ofExcept _) fun _ w _ => ?_
  refine .bind (ev.collect_twin hev v) fun _ items _ => ?_
  split
  · refine .get (fun h h' l => ?_) fun h => (indexIn_plain _ _).twin
    rw [l.written]
  · exact (countIn_plain _ _).twin

theorem callMethod_twin (receiver : Value) (name : String) (args : List Value)
    (keywords : Bindings) : Twin l Same frames (callMethod ev receiver name args keywords)
      (callMethod ev' receiver name args keywords) := by
  unfold callMethod
  split
  · exact TextMethod.call_twin hev _ name args keywords
  · exact ListMethod.call_twin hev _ name args keywords
  · exact DictMethod.call_twin hev _ name args keywords
  · exact (SetMethod.call_plain _ name args keywords).twin
  · exact (callTuple_plain _ name args keywords).twin
  · exact callRange_twin hev _ name args keywords
  · exact (callLoop_plain _ args keywords).twin
  · exact .fault _

theorem callUnbound_twin (kind : Builtin) (name : String) (args : List Value)
    (keywords : Bindings) : Twin l Same frames (callUnbound ev kind name args keywords)
      (callUnbound ev' kind name args keywords) := by
  unfold callUnbound
  split
  · exact .fault _
  · split
    · exact callMethod_twin hev _ name _ keywords
    · exact .fault _

namespace Host

theorem next_twin (args : List Value) (keywords : Bindings) :
    Twin l Same frames (next ev args keywords) (next ev' args keywords) := by
  unfold next
  refine .bind (.ofExcept _) fun _ _ _ => ?_
  split
  · refine .bind (hev.next _) fun _ v _ => ?_
    split
    · exact .pure _
    · exact .pure _
    · exact .fault _
  · exact .fault _

theorem call_twin (f : HostFunction) (args : List Value) (keywords : Bindings) :
    Twin l Same frames (call ev f args keywords) (call ev' f args keywords) := by
  cases f with
  | url => exact .ofExcept _
  | boom => exact .ofExcept _
  | boomEmpty => exact .ofExcept _
  | boomPad => exact .ofExcept _
  | echo => exact (echo_plain args keywords).twin
  | next => exact next_twin hev args keywords

end Host

end Stencil
