import Stencil.Evaluation.Expression

/-!
# Heaps that look alike

Two heaps may hold functions and generators with different code, different variables and
different render data. As long as everything else in them is the same, no comparison, no text
and no lookup of a key, an item or an attribute can tell them apart.
-/

namespace Stencil

structure Heap.LooksLike (h h' : Heap) : Prop where
  size : h.cells.size = h'.cells.size
  listItems : h.listItems = h'.listItems
  dictEntries : h.dictEntries = h'.dictEntries
  setItems : h.setItems = h'.setItems
  fields : h.fields = h'.fields
  textOf : h.textOf = h'.textOf
  loopState : h.loopState = h'.loopState
  title : (fun r => (h.closure? r).elim "" (·.title)) = fun r => (h'.closure? r).elim "" (·.title)

namespace Heap.LooksLike

variable {h h' : Heap} (l : h.LooksLike h')

include l

theorem setLike? : Value.setLike? h = Value.setLike? h' := by
  unfold Value.setLike?
  rw [l.setItems, l.dictEntries]

theorem equalBy : Value.equalBy h = Value.equalBy h' := by
  unfold Value.equalBy
  rw [l.listItems, l.dictEntries, l.setLike?]

theorem equalWithin (fuel : Nat) : Value.equalWithin h fuel = Value.equalWithin h' fuel := by
  induction fuel with
  | zero => rfl
  | succ fuel ih =>
    funext a b
    simp only [Value.equalWithin, ih, l.equalBy]

theorem equal : Value.equal h = Value.equal h' := by
  unfold Value.equal
  rw [l.equalWithin]

theorem alike : Value.alike h = Value.alike h' := by
  unfold Value.alike
  rw [l.equal]

theorem orderSequences : Value.orderSequences h = Value.orderSequences h' := by
  funext cmp op xs
  induction xs with
  | nil =>
    funext ys
    cases ys <;> rfl
  | cons x xs ih =>
    funext ys
    cases ys with
    | nil => rfl
    | cons y ys => simp only [Value.orderSequences, l.alike, ih]

theorem includes : Value.includes h = Value.includes h' := by
  unfold Value.includes
  rw [l.alike]

theorem orderBy : Value.orderBy h = Value.orderBy h' := by
  funext cmp op a b
  simp only [Value.orderBy, Value.orderSets, l.orderSequences, l.listItems, l.setLike?, l.includes]

theorem orderWithin (op : Value.Order) (fuel : Nat) :
    Value.orderWithin h op fuel = Value.orderWithin h' op fuel := by
  induction fuel with
  | zero => rfl
  | succ fuel ih =>
    funext a b
    simp only [Value.orderWithin, ih, l.orderBy]

theorem order : Value.order h = Value.order h' := by
  unfold Value.order
  funext op
  rw [l.orderWithin]

theorem search (k : Value) : Value.indexOfKey.search h k = Value.indexOfKey.search h' k := by
  funext i keys
  induction keys generalizing i with
  | nil => rfl
  | cons key keys ih => simp only [Value.indexOfKey.search, l.alike, ih]

theorem indexOfKey : Value.indexOfKey h = Value.indexOfKey h' := by
  funext k
  unfold Value.indexOfKey
  rw [l.search]

theorem lookupKey? : Value.lookupKey? h = Value.lookupKey? h' := by
  unfold Value.lookupKey?
  rw [l.indexOfKey]

theorem putEntry : Value.putEntry h = Value.putEntry h' := by
  unfold Value.putEntry
  rw [l.indexOfKey]

theorem putEntries : Value.putEntries h = Value.putEntries h' := by
  unfold Value.putEntries
  rw [l.putEntry]

theorem eraseEntry : Value.eraseEntry h = Value.eraseEntry h' := by
  unfold Value.eraseEntry
  rw [l.indexOfKey]

theorem addItem : Value.addItem h = Value.addItem h' := by
  unfold Value.addItem
  rw [l.indexOfKey]

theorem setOf : Value.setOf h = Value.setOf h' := by
  unfold Value.setOf
  rw [l.addItem]

theorem contains : Value.contains h = Value.contains h' := by
  unfold Value.contains
  rw [l.alike]

theorem combineItems : Value.combineItems h = Value.combineItems h' := by
  unfold Value.combineItems Value.keep
  rw [l.contains]

theorem writtenBy : Value.writtenBy h = Value.writtenBy h' := by
  have htitle (r : Ref) : (h.closure? r).elim "" (·.title) = (h'.closure? r).elim "" (·.title) :=
    congrFun l.title r
  unfold Value.writtenBy
  simp only [l.listItems, l.dictEntries, l.setItems, l.loopState, htitle]

theorem writtenWithin (fuel : Nat) : Value.writtenWithin h fuel = Value.writtenWithin h' fuel := by
  induction fuel with
  | zero => rfl
  | succ fuel ih =>
    funext inside v
    simp only [Value.writtenWithin, ih, l.writtenBy]

theorem written : Value.written h = Value.written h' := by
  unfold Value.written
  rw [l.writtenWithin]

theorem text : Value.text h = Value.text h' := by
  unfold Value.text
  rw [l.textOf, l.written]

theorem outputText : Value.outputText h = Value.outputText h' := by
  unfold Value.outputText
  rw [l.text]

theorem formatted : Value.formatted h = Value.formatted h' := by
  unfold Value.formatted
  rw [l.text]

theorem missingKey : Value.missingKey h = Value.missingKey h' := by
  unfold Value.missingKey
  rw [l.written]

theorem convert : Percent.convert h = Percent.convert h' := by
  unfold Percent.convert
  rw [l.text, l.written]

theorem conversion : Percent.conversion h = Percent.conversion h' := by
  unfold Percent.conversion Percent.takeNamed
  rw [l.dictEntries, l.convert]

theorem fillFrom (total fuel : Nat) :
    Percent.fillFrom h total fuel = Percent.fillFrom h' total fuel := by
  induction fuel with
  | zero => rfl
  | succ fuel ih => simp only [Percent.fillFrom, l.conversion, ih]

theorem fill : Percent.fill h = Percent.fill h' := by
  unfold Percent.fill
  simp only [l.fillFrom]

theorem functionTitle : Evaluator.functionTitle h = Evaluator.functionTitle h' := by
  have htitle (r : Ref) : (h.closure? r).elim "" (·.title) = (h'.closure? r).elim "" (·.title) :=
    congrFun l.title r
  unfold Evaluator.functionTitle
  simp only [htitle]

theorem truth : Value.truth h = Value.truth h' := by
  unfold Value.truth
  rw [l.listItems, l.dictEntries, l.setItems]

theorem lengthOf : Builtins.lengthOf h = Builtins.lengthOf h' := by
  unfold Builtins.lengthOf
  rw [l.listItems, l.dictEntries, l.setItems]

theorem itemAt (s : LoopState) : s.itemAt h = s.itemAt h' := by
  unfold LoopState.itemAt
  rw [l.listItems]

theorem nesting (r : Ref) : LoopState.nesting h r = LoopState.nesting h' r := by
  fun_induction LoopState.nesting h r with
  | case1 r houtermost =>
    rw [l.loopState] at houtermost
    rw [LoopState.nesting.eq_def h', houtermost]
  | case2 r parent hparent hmade ih =>
    rw [l.loopState] at hparent
    rw [LoopState.nesting.eq_def h', hparent]
    simp only [hmade, if_true, ih]
  | case3 r parent hparent hmade =>
    rw [l.loopState] at hparent
    rw [LoopState.nesting.eq_def h', hparent]
    simp only [hmade, if_false]

theorem loopProperty? (s : LoopState) : s.property? h = s.property? h' := by
  have hprevious : s.previous h = s.previous h' := by
    unfold LoopState.previous
    rw [l.itemAt]
  have hnext : s.next h = s.next h' := by
    unfold LoopState.next
    rw [l.itemAt]
  have hdepth : s.depth h = s.depth h' := by
    unfold LoopState.depth
    simp only [l.nesting]
  unfold LoopState.property?
  rw [hprevious, hnext, hdepth]

theorem property? : Value.property? h = Value.property? h' := by
  unfold Value.property?
  simp only [l.fields, l.loopState, l.loopProperty?]

theorem ownAttribute : Value.ownAttribute h = Value.ownAttribute h' := by
  unfold Value.ownAttribute
  rw [l.property?]

end Heap.LooksLike

end Stencil
