import Stencil.Proofs.Twins

/-!
# Plain evaluations

Most of what evaluation does comes to no expression: it reads and writes lists, dictionaries,
sets and objects, makes iterators, compares and sorts. On heaps that are twins such an evaluation
ends in the same way, whatever leeway there is.
-/

namespace Stencil

variable {α β : Type}

/-- Two outcomes that are the same but for their heaps. -/
inductive Agree (l : Leeway) (frames : Array Frame) : Outcome α → Outcome α → Prop
  | ok (a : α) {h h' : Heap} (ht : h.Twin l h') (hg : Grows frames h.frames) :
      Agree l frames (.ok a h) (.ok a h')
  | error (halt : Halt) {h h' : Heap} (ht : h.Twin l h') (hg : Grows frames h.frames) :
      Agree l frames (.error halt h) (.error halt h')

theorem Agree.after {l : Leeway} {frames frames' : Array Frame} {r r' : Outcome α}
    (h : Agree l frames' r r') (hg : Grows frames frames') : Agree l frames r r' := by
  cases h with
  | ok a ht hg' => exact .ok a ht (hg.trans hg')
  | error halt ht hg' => exact .error halt ht (hg.trans hg')

def Plain (x : Eval α) : Prop :=
  ∀ (l : Leeway) n h h', h.Twin l h' → Agree l h.frames (x.run n h) (x.run n h')

namespace Plain

variable {x : Eval α}

theorem twin (hx : Plain x) {l : Leeway} {frames : Array Frame} : Twin l Same frames x x := by
  intro n h h' ht _
  have hr := hx l n h h' ht
  generalize x.run n h = r, x.run n h' = r' at hr ⊢
  cases hr with
  | ok a ht' hg => exact .ok ht' hg rfl
  | error halt ht' hg => exact .error ht' hg (.same halt)

theorem such (hx : Plain x) {P : α → Prop} (hP : ∀ n h a h', x.run n h = .ok a h' → P a)
    {l : Leeway} {frames : Array Frame} : Twin l (Such fun _ => P) frames x x := by
  intro n h h' ht _
  have hr := hx l n h h' ht
  have hp := hP n h
  generalize x.run n h = r, x.run n h' = r' at hr hp ⊢
  cases hr with
  | ok a ht' hg => exact .ok ht' hg ⟨rfl, hp a _ rfl⟩
  | error halt ht' hg => exact .error ht' hg (.same halt)

theorem pure (a : α) : Plain (Pure.pure a) := fun _ _ h _ ht => .ok a ht (.refl h.frames)

theorem throw (halt : Halt) : Plain (MonadExcept.throw halt : Eval α) :=
  fun _ _ h _ ht => .error halt ht (.refl h.frames)

theorem fault (f : Fault) : Plain (Eval.fault f : Eval α) := throw (.fault f)

theorem typeFault (message : String) : Plain (Eval.typeFault message : Eval α) := fault _

theorem valueFault (message : String) : Plain (Eval.valueFault message : Eval α) := fault _

theorem ofExcept (e : Except Fault α) : Plain (Eval.ofExcept e) := by
  cases e with
  | ok a => exact pure a
  | error f => exact fault f

theorem bind {f : α → Eval β} (hx : Plain x) (hf : ∀ a, Plain (f a)) : Plain (x >>= f) := by
  intro l n h h' ht
  have hr := hx l n h h' ht
  change Agree l h.frames (Eval.runOn (x.run n h) fun a => (f a).run n)
    (Eval.runOn (x.run n h') fun a => (f a).run n)
  generalize x.run n h = r, x.run n h' = r' at hr ⊢
  cases hr with
  | ok a ht' hg => exact (hf a l n _ _ ht').after hg
  | error halt ht' hg => exact .error halt ht' hg

theorem get {f : Heap → Eval β} (hl : ∀ h h', h.LooksLike h' → f h = f h')
    (hf : ∀ h, Plain (f h)) : Plain (MonadState.get >>= f) := by
  intro l n h h' ht
  change Agree l h.frames ((f h).run n h) ((f h').run n h')
  rw [← hl h h' ht.looksLike]
  exact hf h l n h h' ht

theorem tryCatch {f : Halt → Eval α} (hx : Plain x) (hf : ∀ halt, Plain (f halt)) :
    Plain (MonadExcept.tryCatch x f) := by
  intro l n h h' ht
  have hr := hx l n h h' ht
  change Agree l h.frames (Eval.handled (x.run n h) fun halt => (f halt).run n)
    (Eval.handled (x.run n h') fun halt => (f halt).run n)
  generalize x.run n h = r, x.run n h' = r' at hr ⊢
  cases hr with
  | ok a ht' hg => exact .ok a ht' hg
  | error halt ht' hg =>
    unfold Eval.handled
    dsimp only
    split
    · exact .error halt ht' hg
    · exact (hf halt l n _ _ ht').after hg

theorem allocate {c : Cell} (hc : c.IsInert) : Plain (Eval.allocate c) := by
  intro l n h h' ht
  have hrun : (Eval.allocate c).run n h' =
      .ok h.cells.size { h' with cells := h'.cells.push c } := by
    rw [ht.size]
    rfl
  rw [hrun]
  exact .ok _ (ht.push (.inert hc)) (.refl h.frames)

theorem write (r : Ref) {c : Cell} (hc : c.IsInert) : Plain (Eval.write r c) :=
  fun _ _ h _ ht => .ok () (ht.set r (.inert hc)) (.refl h.frames)

theorem newList (items : Array Value) : Plain (Eval.newList items) :=
  bind (allocate trivial) fun r => pure (Value.list r)

theorem newDict (entries : Array (Value × Value)) : Plain (Eval.newDict entries) :=
  bind (allocate trivial) fun r => pure (Value.dict r)

theorem newSet (items : Array Value) : Plain (Eval.newSet items) :=
  bind (allocate trivial) fun r => pure (Value.set r)

theorem newIterator (kind : IteratorKind) {c : Cursor} (hc : (Cell.iterator c).IsInert) :
    Plain (Eval.newIterator kind c) := bind (allocate hc) fun r => pure (Value.iterator kind r)

theorem map {f : α → β} (hx : Plain x) : Plain (f <$> x) := bind hx fun a => pure (f a)

section Lists

variable {ε : Type}

theorem mapM {f : ε → Eval α} (hf : ∀ e, Plain (f e)) (es : List ε) : Plain (es.mapM f) := by
  unfold List.mapM
  generalize [] = done
  induction es generalizing done with
  | nil => exact pure done.reverse
  | cons e es ih => exact bind (hf e) fun a => ih (a :: done)

theorem forM {f : ε → Eval PUnit} (hf : ∀ e, Plain (f e)) (es : List ε) : Plain (es.forM f) := by
  induction es with
  | nil => exact pure PUnit.unit
  | cons e es ih => exact bind (hf e) fun _ => ih

theorem foldlM {f : α → ε → Eval α} (hf : ∀ a e, Plain (f a e)) (es : List ε) (a : α) :
    Plain (es.foldlM f a) := by
  induction es generalizing a with
  | nil => exact pure a
  | cons e es ih => exact bind (hf a e) fun a => ih a

end Lists

end Plain

theorem subscript_plain (v index : Value) : Plain (Value.subscript v index) := by
  unfold Value.subscript
  refine .get (fun h h' l => ?_) fun h => ?_
  · simp only [l.listItems, l.dictEntries, l.lookupKey?, l.missingKey]
  · split
    · refine .bind (.ofExcept _) fun found => ?_
      split
      · exact .pure _
      · exact .newList _
    · refine .bind (.ofExcept _) fun found => ?_
      split
      · exact .pure _
      · exact .pure _
    · refine .bind (.ofExcept _) fun found => ?_
      split
      · exact .pure _
      · exact .pure _
    · refine .bind (.ofExcept _) fun found => ?_
      split
      · exact .pure _
      · exact .pure _
    · exact .ofExcept _
    · refine .bind (.ofExcept _) fun found => ?_
      split
      · exact .pure _
      · exact .ofExcept _
    · refine .bind (.ofExcept _) fun found => ?_
      split
      · exact .pure _
      · exact .ofExcept _
    · exact .pure _
    · exact .pure _
    · exact .pure _
    · exact .fault _

theorem itemInstead_plain (v : Value) (name : String) (f : Fault) :
    Plain (Value.itemInstead v name f) := by
  refine .tryCatch (subscript_plain v _) fun halt => ?_
  split
  · split
    · exact .fault _
    · exact .fault _
  · exact .throw _

theorem member_plain (v : Value) (name : String) : Plain (Value.member v name) := by
  unfold Value.member
  refine .get (fun h h' l => ?_) fun h => ?_
  · simp only [l.dictEntries, l.lookupKey?, l.ownAttribute]
  · split
    · refine .bind (.ofExcept _) fun found => ?_
      split
      · exact .pure _
      · split
        · exact .pure _
        · exact .fault _
    · split
      · exact .pure _
      · split
        · exact itemInstead_plain _ _ _
        · exact .fault _

theorem memberLenient_plain (v : Value) (name : String) :
    Plain (Value.memberLenient v name) := by
  unfold Value.memberLenient
  split
  · exact .pure _
  · exact .pure _
  · refine .tryCatch (member_plain _ _) fun halt => ?_
    split
    · split
      · exact .pure _
      · exact .fault _
    · exact .throw _

theorem joined_plain (a b : Value) : Plain (Value.joined a b) := by
  unfold Value.joined
  split
  · exact .pure _
  · exact .fault _
  · exact .pure _
  · exact .typeFault _
  · exact .pure _
  · exact .fault _
  · refine .get (fun h h' l => ?_) fun h => .newList _
    rw [l.listItems]
  · exact .fault _
  · exact .fault _

theorem repeated_plain (a : Value) (n : Int) : Plain (Value.repeated a n) := by
  unfold Value.repeated
  split
  · exact .bind (.ofExcept _) fun count => .pure _
  · exact .bind (.ofExcept _) fun count => .pure _
  · exact .bind (.ofExcept _) fun count => .pure _
  · refine .get (fun h h' l => ?_) fun h => .bind (.ofExcept _) fun count => .newList _
    rw [l.listItems]
  · exact .pure _

theorem multiplied_plain (a b : Value) : Plain (Value.multiplied a b) := by
  unfold Value.multiplied
  split
  · split
    · exact repeated_plain _ _
    · exact .typeFault _
  · split
    · split
      · exact repeated_plain _ _
      · exact .typeFault _
    · exact .fault _

theorem combineSets_plain (op : BinaryOp) (a b : Value) : Plain (Value.combineSets op a b) := by
  unfold Value.combineSets
  refine .get (fun h h' l => ?_) fun h => ?_
  · simp only [l.setLike?, l.combineItems, l.setOf]
  · split
    · exact .bind (.ofExcept _) fun items => .bind (.ofExcept _) fun made => .newSet _
    · exact .fault _

theorem combined_plain (op : BinaryOp) (a b : Value) : Plain (Value.combined op a b) := by
  unfold Value.combined
  split
  · refine .get (fun h h' l => ?_) fun h => .bind (.ofExcept _) fun entries => .newDict _
    simp only [l.dictEntries, l.putEntries]
  · exact combineSets_plain _ a b

theorem operateOther_plain (op : BinaryOp) (a b : Value) : Plain (Value.operateOther op a b) := by
  unfold Value.operateOther
  split
  · exact joined_plain _ b
  · exact multiplied_plain _ b
  · refine .get (fun h h' l => ?_) fun h => .bind (.ofExcept _) fun s => .pure _
    rw [l.fill]
  · exact combined_plain _ _ b

theorem operateNumbers_plain (op : BinaryOp) (a b : Value) :
    Plain (Value.operateNumbers op a b) := by
  unfold Value.operateNumbers
  split
  · split
    · exact .bind (.ofExcept _) fun n => .pure _
    · exact .fault _
  · exact operateOther_plain op a b

theorem operate_plain (op : BinaryOp) (a b : Value) : Plain (Value.operate op a b) := by
  unfold Value.operate
  split
  · exact .pure _
  · exact .pure _
  · exact .pure _
  · exact operateNumbers_plain _ _ _

theorem operateUnary_plain (op : UnaryOp) (v : Value) : Plain (Value.operateUnary op v) := by
  unfold Value.operateUnary
  split
  · refine .get (fun h h' l => ?_) fun h => .pure _
    rw [l.truth]
  · exact .pure _
  · exact .pure _
  · exact .pure _
  · exact .pure _
  · exact .pure _
  · exact .typeFault _

theorem toIterator?_plain (v : Value) : Plain v.toIterator? := by
  have made (kind : IteratorKind) {c : Cursor} (hc : (Cell.iterator c).IsInert) :
      Plain (do return Option.some (← Eval.newIterator kind c)) :=
    .bind (.newIterator kind hc) fun it => .pure _
  unfold Value.toIterator?
  refine .get (fun h h' l => ?_) fun h => ?_
  · simp only [l.dictEntries, l.setItems]
  · split
    · exact made _ trivial
    · exact made _ trivial
    · exact made _ trivial
    · exact made _ trivial
    · exact made _ trivial
    · exact made _ trivial
    · exact made _ trivial
    · exact made _ trivial
    · exact made _ trivial
    · exact made _ trivial
    · exact made _ trivial
    · exact .pure _
    · exact .pure _
    · exact .pure _

theorem toIterator_plain (v : Value) : Plain v.toIterator := by
  refine .bind (toIterator?_plain v) fun it => ?_
  split
  · exact .pure _
  · exact .fault _

namespace Evaluator

theorem iteratorToUnpack_plain (v : Value) : Plain (iteratorToUnpack v) := by
  refine .bind (toIterator?_plain v) fun it => ?_
  split
  · exact .pure _
  · exact .typeFault _

theorem assignItem_plain (container index v : Value) : Plain (assignItem container index v) := by
  unfold assignItem
  refine .get (fun h h' l => ?_) fun h => ?_
  · simp only [l.listItems, l.dictEntries, l.putEntry]
  · split
    · exact .bind (.ofExcept _) fun i => .write _ trivial
    · exact .bind (.ofExcept _) fun entries => .write _ trivial
    · exact .fault _

theorem assignAttribute_plain (container : Value) (name : String) (v : Value) :
    Plain (assignAttribute container name v) := by
  unfold assignAttribute
  split
  · refine .get (fun h h' l => ?_) fun h => .write _ trivial
    rw [l.fields]
  · exact .fault _

theorem isAmong_plain (items : List Value) (v : Value) : Plain (isAmong items v) := by
  refine .get (fun h h' l => ?_) fun h => .ofExcept _
  rw [l.contains]

theorem entriesOf?_plain (v : Value) : Plain (entriesOf? v) := by
  unfold entriesOf?
  split
  · refine .get (fun h h' l => ?_) fun h => .pure _
    rw [l.dictEntries]
  · exact .pure _
  · exact .pure _

theorem converted_plain (conversion : Option Char) (v : Value) :
    Plain (converted conversion v) := by
  unfold converted
  refine .get (fun h h' l => ?_) fun h => ?_
  · simp only [l.written, l.text]
  · split
    · exact .bind (.ofExcept _) fun s => .pure _
    · exact .bind (.ofExcept _) fun s => .pure _
    · exact .bind (.ofExcept _) fun s => .pure _
    · exact .pure _

theorem addAll_plain (items vs : List Value) : Plain (addAll items vs) := by
  refine .get (fun h h' l => ?_) fun h => .ofExcept _
  rw [l.addItem]

theorem putAll_plain (entries : Array (Value × Value)) (pairs : List (Value × Value)) :
    Plain (putAll entries pairs) := by
  refine .get (fun h h' l => ?_) fun h => .ofExcept _
  rw [l.putEntries]

end Evaluator

namespace Eval

theorem newLoop_plain (items : Ref) (parent : Option Ref) : Plain (newLoop items parent) := by
  unfold newLoop
  refine .get (fun h h' l => ?_) fun h => .allocate trivial
  simp only [l.listItems]

theorem passOf_plain (loop : Ref) (index : Nat) : Plain (passOf loop index) := by
  unfold passOf
  refine .get (fun h h' l => ?_) fun h => ?_
  · simp only [l.loopState, l.listItems]
  · dsimp only
    split
    · exact .pure _
    · exact .bind (.write _ trivial) fun _ => .pure _

end Eval

namespace Builtins

theorem len_plain (args : List Value) (keywords : Bindings) : Plain (len args keywords) := by
  refine .bind (.ofExcept _) fun _ => .bind (.ofExcept _) fun v => ?_
  refine .get (fun h h' l => ?_) fun h => .bind (.ofExcept _) fun n => .pure _
  rw [l.lengthOf]

theorem str_plain (args : List Value) (keywords : Bindings) : Plain (str args keywords) := by
  unfold str
  refine .bind (.ofExcept _) fun _ => ?_
  dsimp only
  split
  · exact .pure _
  · refine .get (fun h h' l => ?_) fun h => .bind (.ofExcept _) fun s => .pure _
    rw [l.text]
  · exact .bind (.ofExcept _) fun s => .pure _

theorem bool_plain (args : List Value) (keywords : Bindings) : Plain (bool args keywords) := by
  refine .bind (.ofExcept _) fun _ => .get (fun h h' l => ?_) fun h => .pure _
  rw [l.truth]

theorem enumerate_plain (args : List Value) (keywords : Bindings) :
    Plain (enumerate args keywords) := by
  refine .bind (.ofExcept _) fun given => .bind (.ofExcept _) fun start => ?_
  exact .bind (toIterator_plain _) fun it => .newIterator _ trivial

theorem zip_plain (args : List Value) (keywords : Bindings) : Plain (zip args keywords) := by
  refine .bind (.ofExcept _) fun _ => .get (fun h h' l => ?_) fun h => ?_
  · rw [l.truth]
  · exact .bind (.mapM toIterator_plain args) fun inner => .newIterator _ trivial

theorem reversed_plain (args : List Value) (keywords : Bindings) :
    Plain (reversed args keywords) := by
  unfold reversed
  refine .bind (.ofExcept _) fun _ => .get (fun h h' l => ?_) fun h => ?_
  · simp only [l.listItems, l.dictEntries]
  · dsimp only
    split
    · exact .newIterator _ trivial
    · exact .newIterator _ trivial
    · exact .newIterator _ trivial
    · exact .newIterator _ trivial
    · exact .newIterator _ trivial
    · exact .newIterator _ trivial
    · exact .newIterator _ trivial
    · exact .newIterator _ trivial
    · exact .fault _
    · exact .typeFault _

theorem isBefore_plain (op : Value.Order) (a b : Value) : Plain (isBefore op a b) := by
  refine .get (fun h h' l => ?_) fun h => .ofExcept _
  rw [l.order]

end Builtins

namespace Sorting

variable {before : α → α → Eval Bool} (hb : ∀ a b, Plain (before a b))

include hb

theorem runLength_plain (falling : Bool) (previous : α) (items : List α) :
    Plain (runLength before falling previous items) := by
  induction items generalizing previous with
  | nil => exact .pure 0
  | cons a rest ih =>
    refine .bind (hb a previous) fun falls => ?_
    split
    · exact .bind (ih a) fun n => .pure _
    · exact .pure 0

theorem place_plain (items : Array α) (a : α) (low fuel high : Nat) :
    Plain (place before items a low fuel high) := by
  induction fuel generalizing low high with
  | zero =>
    unfold place
    exact .pure low
  | succ fuel ih =>
    unfold place
    split
    · dsimp only
      split
      · exact .pure low
      · refine .bind (hb _ _) fun isBefore => ?_
        split
        · exact ih _ _
        · exact ih _ _
    · exact .pure low

theorem sort_plain (items : List α) : Plain (sort before items) := by
  have hinsert (sorted : Array α) (a : α) : Plain (insert before sorted a) :=
    .bind (place_plain hb _ _ _ _ _) fun i => .pure _
  unfold sort
  split
  · refine .bind (hb _ _) fun falling => .bind (runLength_plain hb _ _ _) fun n => ?_
    exact .bind (.foldlM hinsert _ _) fun sorted => .pure _
  · exact .pure _

end Sorting

theorem TextMethod.split_plain (s : List Char) (args : List Value) (keywords : Bindings) :
    Plain (TextMethod.split s args keywords) := by
  unfold TextMethod.split
  refine .bind (.ofExcept _) fun _ => .bind (.ofExcept _) fun limit => ?_
  have made (pieces : List (List Char)) :
      Plain (Eval.newList (pieces.map fun p => Value.str (String.ofList p)).toArray) := .newList _
  dsimp only
  split
  · exact .bind (.pure _) made
  · split
    · exact .bind (.valueFault _) made
    · exact .bind (.pure _) made
  · exact .bind (.typeFault _) made

theorem indexIn_plain (items args : List Value) {missing : Value → Except Fault Fault} :
    Plain (indexIn items args missing) := by
  unfold indexIn
  refine .bind (.ofExcept _) fun _ => .get (fun h h' l => ?_) fun h => ?_
  · rw [l.alike]
  · refine .bind (.ofExcept _) fun start => .bind (.ofExcept _) fun stop => ?_
    refine .bind (.ofExcept _) fun found => ?_
    split
    · exact .pure _
    · exact .bind (.ofExcept _) fun f => .fault f

theorem countIn_plain (items : List Value) (v : Value) : Plain (countIn items v) := by
  refine .get (fun h h' l => ?_) fun h => .bind (.ofExcept _) fun found => .pure _
  rw [l.alike]

namespace ListMethod

theorem removeAt_plain (r : Ref) (i : Nat) : Plain (removeAt r i) := by
  refine .get (fun h h' l => ?_) fun h => .write _ trivial
  rw [l.listItems]

theorem pop_plain (r : Ref) (args : List Value) : Plain (pop r args) := by
  unfold pop
  refine .bind (.ofExcept _) fun _ => .get (fun h h' l => ?_) fun h => ?_
  · simp only [l.listItems]
  · refine .bind (.ofExcept _) fun n => ?_
    have hremoved (i : Int) : Plain (do
        removeAt r i.toNat
        return (h.listItems r).getD i.toNat Value.none) :=
      .bind (removeAt_plain _ _) fun _ => .pure _
    have hplace (i : Int) : Plain (do
        if i < 0 || i ≥ (h.listItems r).size then
          Eval.fault (.index "pop index out of range")
        removeAt r i.toNat
        return (h.listItems r).getD i.toNat Value.none) := by
      dsimp only
      split
      · exact .bind (.fault _) fun _ => hremoved i
      · exact hremoved i
    dsimp only
    split
    · exact .bind (.fault _) fun _ => hplace _
    · exact hplace _

theorem insert_plain (r : Ref) (args : List Value) : Plain (insert r args) := by
  refine .bind (.ofExcept _) fun _ => .get (fun h h' l => ?_) fun h => ?_
  · simp only [l.listItems]
  · exact .bind (.ofExcept _) fun n => .bind (.write _ trivial) fun _ => .pure _

theorem remove_plain (r : Ref) (v : Value) : Plain (remove r v) := by
  unfold remove
  refine .get (fun h h' l => ?_) fun h => ?_
  · simp only [l.listItems, l.alike]
  · refine .bind (.ofExcept _) fun found => ?_
    split
    · exact .bind (removeAt_plain _ _) fun _ => .pure _
    · exact .valueFault _

end ListMethod

theorem SetMethod.remove_plain (r : Ref) (name : String) (v : Value) :
    Plain (SetMethod.remove r name v) := by
  unfold SetMethod.remove
  refine .get (fun h h' l => ?_) fun h => ?_
  · simp only [l.setItems, l.indexOfKey, l.missingKey]
  · refine .bind (.ofExcept _) fun found => ?_
    split
    · exact .bind (.write _ trivial) fun _ => .pure _
    · split
      · exact .ofExcept _
      · exact .pure _

theorem SetMethod.call_plain (r : Ref) (name : String) (args : List Value) (keywords : Bindings) :
    Plain (SetMethod.call r name args keywords) := by
  unfold SetMethod.call
  refine .bind (.ofExcept _) fun _ => .get (fun h h' l => ?_) fun h => ?_
  · simp only [l.setItems, l.setOf]
  · dsimp only
    split
    · exact .bind (.ofExcept _) fun v => .bind (.ofExcept _) fun items =>
        .bind (.write _ trivial) fun _ => .pure _
    · exact .bind (.ofExcept _) fun v => remove_plain r _ v
    · exact .bind (.ofExcept _) fun v => remove_plain r _ v
    · refine .bind (.ofExcept _) fun _ => ?_
      split
      · exact .newSet _
      · exact .bind (.write _ trivial) fun _ => .pure _
      · exact .fault _

theorem callTuple_plain (items : List Value) (name : String) (args : List Value)
    (keywords : Bindings) : Plain (callTuple items name args keywords) := by
  refine .bind (.ofExcept _) fun _ => ?_
  split
  · exact indexIn_plain _ _
  · exact .bind (.ofExcept _) fun v => countIn_plain _ _

theorem callLoop_plain (r : Ref) (args : List Value) (keywords : Bindings) :
    Plain (callLoop r args keywords) := by
  unfold callLoop
  split
  · refine .get (fun h h' l => ?_) fun h => .pure _
    simp only [l.loopState]
  · exact .typeFault _

theorem Host.echo_plain (args : List Value) (keywords : Bindings) :
    Plain (Host.echo args keywords) :=
  .bind (.mapM (fun _ => .newList _) _) fun _ => .newList _

end Stencil
