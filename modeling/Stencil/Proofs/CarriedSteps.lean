import Stencil.Proofs.CarriedRuns

/-!
# Plain evaluations in renamed heaps

What evaluation does without coming back to an expression: it takes items and attributes, applies
operators, makes iterators and stores values. On renamed arguments, in a heap that carries the
first one, each of these delivers the renamed result.
-/

namespace Stencil

namespace Renaming

variable {ρ : Renaming}

/-- The entry of a dictionary, or the complaint that there is none. -/
theorem entry_carried {h h' : Heap} (hc : ρ.Carries h h') (r : Ref) (index : Value) :
    ρ.Carried ρ.value
      (do
        match ← Eval.ofExcept (Value.lookupKey? h (h.dictEntries r) index) with
        | some w => return w
        | none => Eval.ofExcept (Value.missingKey h index))
      (do
        match ← Eval.ofExcept
          (Value.lookupKey? h' (h'.dictEntries (ρ.cell r)) (ρ.value index)) with
        | some w => return w
        | none => Eval.ofExcept (Value.missingKey h' (ρ.value index))) := by
  rw [hc.dictEntries]
  refine .bind (.ofExcept (hc.lookupKey?_value _ _)) fun found => ?_
  cases found with
  | some w => exact .pure
  | none => exact .ofExcept (hc.missingKey_value index)

theorem subscript_carried (v index : Value) :
    ρ.Carried ρ.value (Value.subscript v index) (Value.subscript (ρ.value v) (ρ.value index)) := by
  unfold Value.subscript
  refine .get fun h h' hc => ?_
  have hentry (r : Ref) := entry_carried hc r index
  have hother := ρ.notSubscriptable_value v
  cases v with
  | list r =>
    dsimp only [value]
    rw [hc.listItems]
    refine .bind (.ofExcept (ρ.select_map ρ.value _ _ _)) fun found => ?_
    cases found with
    | inl a => exact .pure
    | inr items => exact .newListOf items
  | tuple items =>
    rw [value_tuple]
    dsimp only
    rw [← List.map_toArray]
    refine .bind (.ofExcept (ρ.select_map ρ.value _ _ _)) fun found => ?_
    cases found with
    | inl a => exact .pure
    | inr items => exact .deliver (ρ.value_tuple items).symm
  | str s =>
    dsimp only [value]
    rw [ρ.select_value]
    exact .bind (.ofSame rfl) fun found => by cases found <;> exact .pure
  | bytes b =>
    dsimp only [value]
    rw [ρ.select_value]
    exact .bind (.ofSame rfl) fun found => by cases found <;> exact .pure
  | range start stop step => exact .ofExcept (ρ.selectRange_value ..)
  | dict r => exact hentry r
  | row r => exact hentry r
  | undefined => exact .pure
  | builtin b =>
    dsimp only [value]
    cases b with
    | list => exact .pure
    | dict => exact .pure
    | _ => exact .fault _
  | _ => exact .faultOf hother

theorem itemInstead_carried (v : Value) (name : String) (fault : Fault) :
    ρ.Carried ρ.value (Value.itemInstead v name fault)
      (Value.itemInstead (ρ.value v) name fault) := by
  unfold Value.itemInstead
  refine .tryCatch (subscript_carried v (.str name)) (fun halt => ?_) fun g hg => ?_
  · split
    · split
      · exact .fault _
      · exact .fault _
    · exact .throw _
  · rcases hg with hg | hg <;> simp [hg]

/-- An attribute, or else an item, of a value that is no dictionary. -/
theorem attributeOrItem_carried {h h' : Heap} (hc : ρ.Carries h h') (v : Value) (name : String) :
    ρ.Carried ρ.value
      (match Value.ownAttribute h v name with
      | .ok w => Pure.pure w
      | .error f =>
        if f.kind = .missingAttribute && v.hasItems then Value.itemInstead v name f
        else Eval.fault f)
      (match Value.ownAttribute h' (ρ.value v) name with
      | .ok w => Pure.pure w
      | .error f =>
        if f.kind = .missingAttribute && (ρ.value v).hasItems then
          Value.itemInstead (ρ.value v) name f
        else Eval.fault f) := by
  rw [hc.ownAttribute_value, ρ.hasItems_value]
  cases Value.ownAttribute h v name with
  | ok w => exact .pure
  | error f =>
    dsimp only [Except.map]
    split
    · exact itemInstead_carried v name f
    · exact .fault f

theorem member_carried (v : Value) (name : String) :
    ρ.Carried ρ.value (Value.member v name) (Value.member (ρ.value v) name) := by
  unfold Value.member
  refine .get fun h h' hc => ?_
  have hother := attributeOrItem_carried hc v name
  cases v with
  | dict r =>
    have hown := hc.ownAttribute_value (.dict r) name
    dsimp only [value] at hown ⊢
    rw [hc.dictEntries, hown]
    refine .bind (.ofExcept (hc.lookupKey?_value _ (.str name))) fun found => ?_
    cases found with
    | some w => exact .pure
    | none =>
      dsimp only [Option.map_none]
      cases Value.ownAttribute h (.dict r) name with
      | ok w => exact .pure
      | error f => exact .fault _
  | _ => exact hother

theorem memberOrUndefined_carried (v : Value) (name : String) : ρ.Carried ρ.value
    (MonadExcept.tryCatch (Value.member v name) fun
      | .fault f => if f.kind = .missingAttribute then return .undefined else Eval.fault f
      | halt => throw halt)
    (MonadExcept.tryCatch (Value.member (ρ.value v) name) fun
      | .fault f => if f.kind = .missingAttribute then return .undefined else Eval.fault f
      | halt => throw halt) := by
  refine .tryCatch (member_carried v name) (fun halt => ?_) fun f hf => ?_
  · split
    · split
      · exact .pure
      · exact .fault _
    · exact .throw _
  · rcases hf with hf | hf <;> simp [hf]

theorem memberLenient_carried (v : Value) (name : String) :
    ρ.Carried ρ.value (Value.memberLenient v name) (Value.memberLenient (ρ.value v) name) := by
  have hother := memberOrUndefined_carried (ρ := ρ) v name
  unfold Value.memberLenient
  cases v with
  | none => exact .pure
  | undefined => exact .pure
  | _ => exact hother

theorem unsupported_value (op : BinaryOp) (a b : Value) :
    Value.unsupported op (ρ.value a) (ρ.value b) = Value.unsupported op a b := by
  unfold Value.unsupported
  rw [ρ.kindName_value, ρ.kindName_value]

theorem cannotJoin_value (kind : String) (b : Value) :
    Value.cannotJoin kind (ρ.value b) = Value.cannotJoin kind b := by
  unfold Value.cannotJoin
  rw [ρ.kindName_value]

theorem joined_carried (a b : Value) :
    ρ.Carried ρ.value (Value.joined a b) (Value.joined (ρ.value a) (ρ.value b)) := by
  have hunsupported := unsupported_value (ρ := ρ) .add a b
  have hcannot (kind : String) := cannotJoin_value (ρ := ρ) kind b
  have hbytes := congrArg (fun kind => Fault.type ("can't concat " ++ kind ++ " to bytes"))
    (ρ.kindName_value b)
  cases a with
  | str s =>
    cases b with
    | str t => exact .pure
    | _ => exact .faultOf (hcannot _)
  | bytes s =>
    cases b with
    | bytes t => exact .pure
    | _ => exact .faultOf hbytes
  | tuple s =>
    have hvalue (items : List Value) := ρ.value_tuple items
    cases b with
    | tuple t =>
      rw [hvalue, hvalue]
      refine .deliver ?_
      rw [hvalue, List.map_append]
    | _ =>
      rw [hvalue]
      exact .faultOf (hcannot _)
  | list r =>
    cases b with
    | list s =>
      refine .get fun h h' hc => ?_
      rw [hc.listItems, hc.listItems, ← Array.map_append]
      exact .newList _
    | _ => exact .faultOf (hcannot _)
  | _ => exact .faultOf hunsupported

theorem repeatList_map {α β : Type} (f : α → β) (n : Nat) (items : List α) :
    Value.repeatList n (items.map f) = (Value.repeatList n items).map f := by
  unfold Value.repeatList
  rw [List.map_flatten, List.map_replicate]

theorem repeated_carried (a : Value) (n : Int) :
    ρ.Carried ρ.value (Value.repeated a n) (Value.repeated (ρ.value a) n) := by
  cases a with
  | str s => exact .bind (.ofSame rfl) fun count => .pure
  | bytes b => exact .bind (.ofSame rfl) fun count => .pure
  | tuple items =>
    rw [value_tuple]
    unfold Value.repeated
    dsimp only
    rw [List.length_map]
    refine .bind (.ofSame rfl) fun count => .deliver ?_
    rw [value_tuple, id, repeatList_map]
  | list r =>
    refine .get fun h h' hc => ?_
    rw [hc.listItems, Array.toList_map]
    dsimp only
    rw [List.length_map]
    refine .bind (.ofSame rfl) fun count => ?_
    rw [id, repeatList_map]
    exact .newListOf _
  | _ => exact .pure

theorem multiplied_carried (a b : Value) :
    ρ.Carried ρ.value (Value.multiplied a b) (Value.multiplied (ρ.value a) (ρ.value b)) := by
  unfold Value.multiplied
  simp only [isSequence_value, integer?_value, kindName_value, unsupported_value]
  split
  · cases b.integer? with
    | some n => exact repeated_carried a n
    | none => exact .fault _
  · split
    · cases a.integer? with
      | some n => exact repeated_carried b n
      | none => exact .fault _
    · exact .fault _

/-- Values are kept or dropped by what is known of them in either heap. -/
theorem filterM_value {p p' : Value → Value.Answer} (hp : ∀ v, p' (ρ.value v) = p v)
    (vs : List Value) : (vs.map ρ.value).filterM p' = (vs.filterM p).map (List.map ρ.value) := by
  have haux (done : List Value) : List.filterAuxM p' (vs.map ρ.value) (done.map ρ.value) =
      (List.filterAuxM p vs done).map (List.map ρ.value) := by
    induction vs generalizing done with
    | nil => rfl
    | cons v vs ih =>
      change (p' (ρ.value v) >>= fun b =>
        List.filterAuxM p' (vs.map ρ.value) (cond b (ρ.value v :: done.map ρ.value)
          (done.map ρ.value))) = _
      rw [hp]
      refine Except.bind_same_eq_map fun b => ?_
      cases b with
      | true => exact ih (v :: done)
      | false => exact ih done
  refine Except.bind_eq_map (haux []) fun kept => ?_
  exact congrArg Except.ok List.map_reverse.symm

theorem Carries.keep_value {h h' : Heap} (hc : ρ.Carries h h') (among : Bool)
    (zs vs : List Value) : Value.keep h' among (zs.map ρ.value) (vs.map ρ.value) =
      (Value.keep h among zs vs).map (List.map ρ.value) := by
  refine filterM_value (fun v => ?_) vs
  rw [hc.contains_value]

theorem Carries.combineItems_value {h h' : Heap} (hc : ρ.Carries h h') (op : BinaryOp)
    (xs ys : List Value) (other : Fault) :
    Value.combineItems h' op (xs.map ρ.value) (ys.map ρ.value) other =
      (Value.combineItems h op xs ys other).map (List.map ρ.value) := by
  cases op with
  | subtract => exact hc.keep_value false ys xs
  | bitAnd => exact hc.keep_value true ys xs
  | bitOr => exact congrArg Except.ok List.map_append.symm
  | bitXor =>
    refine Except.bind_eq_map (hc.keep_value false ys xs) fun left => ?_
    refine Except.bind_eq_map (hc.keep_value false xs ys) fun right => ?_
    exact congrArg Except.ok List.map_append.symm
  | _ => rfl

theorem combineSets_carried (op : BinaryOp) (a b : Value) : ρ.Carried ρ.value
    (Value.combineSets op a b) (Value.combineSets op (ρ.value a) (ρ.value b)) := by
  unfold Value.combineSets
  refine .get fun h h' hc => ?_
  rw [hc.setLike?_value, hc.setLike?_value, unsupported_value]
  cases Value.setLike? h a with
  | none => exact .fault _
  | some xs =>
    cases Value.setLike? h b with
    | none => exact .fault _
    | some ys =>
      refine .bind (.ofExcept (hc.combineItems_value op xs ys _)) fun items => ?_
      exact .bind (.ofExcept (hc.setOf_value items)) fun made => .newSet made

theorem combined_carried (op : BinaryOp) (a b : Value) :
    ρ.Carried ρ.value (Value.combined op a b) (Value.combined op (ρ.value a) (ρ.value b)) := by
  have hsets := combineSets_carried (ρ := ρ) op a b
  cases op with
  | bitOr =>
    cases a with
    | dict r =>
      cases b with
      | dict s =>
        refine .get fun h h' hc => ?_
        rw [hc.dictEntries, hc.dictEntries]
        exact .bind (.ofExcept (hc.putEntries_value _ _)) fun entries => .newDict entries
      | _ => exact hsets
    | _ => exact hsets
  | _ => exact hsets

theorem operateOther_carried (op : BinaryOp) (a b : Value) : ρ.Carried ρ.value
    (Value.operateOther op a b) (Value.operateOther op (ρ.value a) (ρ.value b)) := by
  have hcombined := combined_carried (ρ := ρ) op a b
  cases op with
  | add => exact joined_carried a b
  | multiply => exact multiplied_carried a b
  | remainder =>
    cases a with
    | str s =>
      refine .get fun h h' hc => ?_
      rw [hc.fill_value]
      exact .bind (.ofSame rfl) fun t => .pure
    | _ => exact hcombined
  | _ => exact hcombined

theorem toValue_value (n : Num) : ρ.value n.toValue = n.toValue := by
  cases n <;> rfl

theorem operateNumbers_carried (op : BinaryOp) (a b : Value) : ρ.Carried ρ.value
    (Value.operateNumbers op a b) (Value.operateNumbers op (ρ.value a) (ρ.value b)) := by
  have hother := operateOther_carried (ρ := ρ) op a b
  unfold Value.operateNumbers
  rw [ρ.number?_value, ρ.number?_value, unsupported_value]
  cases a.number? with
  | none => exact hother
  | some m =>
    cases b.number? with
    | none => exact hother
    | some n =>
      dsimp only
      cases m.operate op n with
      | none => exact .fault _
      | some r => exact .bind (.ofSame rfl) fun n => .deliver (toValue_value n).symm

theorem operate_carried (op : BinaryOp) (a b : Value) :
    ρ.Carried ρ.value (Value.operate op a b) (Value.operate op (ρ.value a) (ρ.value b)) := by
  have hnumbers := operateNumbers_carried (ρ := ρ) op a b
  cases a with
  | bool x =>
    cases b with
    | bool y =>
      cases op with
      | bitAnd => exact .pure
      | bitOr => exact .pure
      | bitXor => exact .pure
      | _ => exact hnumbers
    | _ => exact hnumbers
  | _ => exact hnumbers

theorem operateUnary_carried (op : UnaryOp) (v : Value) :
    ρ.Carried ρ.value (Value.operateUnary op v) (Value.operateUnary op (ρ.value v)) := by
  unfold Value.operateUnary Eval.typeFault
  dsimp only
  rw [ρ.number?_value, ρ.kindName_value]
  split
  · refine .get fun h h' hc => ?_
    rw [hc.truth_value]
    exact .pure
  · exact .pure
  · exact .pure
  · exact .pure
  · exact .deliver (toValue_value _).symm
  · exact .pure
  · exact .fault _

theorem identical_tuple (as bs : List Value) : Value.identical (.tuple as) (.tuple bs) =
    (as.length = bs.length && (as.zip bs).all fun (a, b) => Value.same a b) := by
  cases as <;> cases bs <;> rfl

theorem identical_value (ρ : Renaming) (a b : Value) :
    Value.identical (ρ.value a) (ρ.value b) = Value.identical a b := by
  have hsame := ρ.same_value a b
  cases a with
  | tuple as =>
    cases b with
    | tuple bs =>
      rw [value_tuple, value_tuple, identical_tuple, identical_tuple, List.length_map,
        List.length_map, List.zip_map, List.all_map]
      refine congrArg (_ && ·) (congrArg (as.zip bs).all (funext fun e => ?_))
      exact ρ.same_value e.1 e.2
    | _ => cases as <;> exact hsame
  | _ => cases b <;> first | rfl | exact hsame

theorem newItems_carried {α : Type} (kind : IteratorKind) {g : α → Value}
    (hg : ∀ a, ρ.value (g a) = g a) (as : List α) : ρ.Carried ρ.value
      (Eval.newIterator kind (.items (as.map g))) (Eval.newIterator kind (.items (as.map g))) := by
  have hitems : ρ.cursor (.items (as.map g)) = .items (as.map g) := by
    rw [cursor, List.map_map]
    exact congrArg Cursor.items (List.map_congr_left fun a _ => hg a)
  have hcarried := Carried.newIterator (ρ := ρ) kind (.items (as.map g))
  rwa [hitems] at hcarried

theorem toIterator?_carried (v : Value) :
    ρ.Carried (Option.map ρ.value) v.toIterator? (ρ.value v).toIterator? := by
  have hmade (kind : IteratorKind) (c : Cursor) : ρ.Carried (Option.map ρ.value)
      (do return Option.some (← Eval.newIterator kind c))
      (do return Option.some (← Eval.newIterator kind (ρ.cursor c))) :=
    .bind (.newIterator kind c) fun it => .pure
  unfold Value.toIterator?
  refine .get fun h h' hc => ?_
  cases v with
  | list r => exact hmade .list (.list r 0)
  | tuple items =>
    rw [value_tuple]
    exact hmade .tuple (.items items)
  | str s => exact .bind (newItems_carried _ (fun c => rfl) s.toList) fun it => .pure
  | bytes b => exact .bind (newItems_carried _ (fun c => rfl) b) fun it => .pure
  | range a b c => exact hmade _ (.range a c (Value.rangeLength a b c))
  | dict r => 
    dsimp only [value]
    rw [hc.dictEntries, Array.size_map]
    exact hmade (.dict .keys) (.dict .keys r 0 _)
  | view kind r =>
    dsimp only [value]
    rw [hc.dictEntries, Array.size_map]
    exact hmade (.dict kind) (.dict kind r 0 _)
  | set r =>
    dsimp only [value]
    rw [hc.setItems, Array.size_map]
    exact hmade .set (.set r 0 _)
  | row r => exact hmade .sequence (.subscripts (.row r) 0)
  | undefined => exact hmade .tuple (.items [])
  | loop r => exact hmade .generator (.loop r 0)
  | iterator kind r => cases kind <;> exact .pure
  | _ => exact .pure

theorem toIterator_carried (v : Value) :
    ρ.Carried ρ.value v.toIterator (ρ.value v).toIterator := by
  refine .bind (toIterator?_carried v) fun it => ?_
  cases it with
  | some it => exact .pure
  | none =>
    refine .faultOf ?_
    unfold Value.notIterable
    rw [ρ.kindName_value]

theorem iteratorToUnpack_carried (v : Value) : ρ.Carried ρ.value
    (Evaluator.iteratorToUnpack v) (Evaluator.iteratorToUnpack (ρ.value v)) := by
  refine .bind (toIterator?_carried v) fun it => ?_
  cases it with
  | some it => exact .pure
  | none =>
    refine .faultOf ?_
    rw [ρ.kindName_value]

theorem assignItem_carried (container index v : Value) : ρ.Carried id
    (Evaluator.assignItem container index v)
    (Evaluator.assignItem (ρ.value container) (ρ.value index) (ρ.value v)) := by
  unfold Evaluator.assignItem
  refine .get fun h h' hc => ?_
  have hother : ρ.Carried id (Eval.fault (Evaluator.noItemAssignment container) : Eval Unit)
      (Eval.fault (Evaluator.noItemAssignment (ρ.value container))) := by
    refine .faultOf ?_
    unfold Evaluator.noItemAssignment
    rw [ρ.kindName_value]
  cases container with
  | list r =>
    dsimp only [value]
    rw [hc.listItems, Array.size_map, ρ.place_value]
    refine .bind (.ofSame rfl) fun i => .writeList r ?_
    rw [Array.map_setIfInBounds]
    rfl
  | dict r =>
    dsimp only [value]
    rw [hc.dictEntries]
    exact .bind (.ofExcept (hc.putEntry_value _ _ _)) fun entries => .write r (.dict entries)
  | _ => exact hother

theorem assignAttribute_carried (container : Value) (name : String) (v : Value) : ρ.Carried id
    (Evaluator.assignAttribute container name v)
    (Evaluator.assignAttribute (ρ.value container) name (ρ.value v)) := by
  have hother : ρ.Carried id (Eval.fault (Value.noAttribute container name) : Eval Unit)
      (Eval.fault (Value.noAttribute (ρ.value container) name)) :=
    .faultOf (ρ.noAttribute_value container name)
  cases container with
  | object r =>
    refine .get fun h h' hc => ?_
    dsimp only
    rw [hc.fields, ← ρ.bindings_put]
    exact .write r (.object _)
  | _ => exact hother

theorem isAmong_carried (items : List Value) (v : Value) : ρ.Carried id
    (Evaluator.isAmong items v) (Evaluator.isAmong (items.map ρ.value) (ρ.value v)) := by
  refine .get fun h h' hc => ?_
  rw [hc.contains_value]
  exact .ofSame rfl

theorem entriesOf?_carried (v : Value) :
    ρ.Carried (Option.map (Array.map ρ.entry)) (Evaluator.entriesOf? v)
      (Evaluator.entriesOf? (ρ.value v)) := by
  cases v with
  | dict r =>
    refine .get fun h h' hc => ?_
    rw [hc.dictEntries]
    exact .pure
  | undefined => exact .deliver (congrArg some Array.map_empty.symm)
  | _ => exact .pure

theorem converted_carried (conversion : Option Char) (v : Value) : ρ.Carried ρ.value
    (Evaluator.converted conversion v) (Evaluator.converted conversion (ρ.value v)) := by
  unfold Evaluator.converted
  refine .get fun h h' hc => ?_
  rw [hc.written_value, hc.text_value]
  split
  · exact .bind (.ofSame rfl) fun s => .pure
  · exact .bind (.ofSame rfl) fun s => .pure
  · exact .bind (.ofSame rfl) fun s => .pure
  · exact .pure

theorem addAll_carried (items vs : List Value) : ρ.Carried (List.map ρ.value)
    (Evaluator.addAll items vs) (Evaluator.addAll (items.map ρ.value) (vs.map ρ.value)) :=
  .get fun _ _ hc => .ofExcept (hc.addItems_value items vs)

theorem putAll_carried (entries : Array (Value × Value)) (pairs : List (Value × Value)) :
    ρ.Carried (Array.map ρ.entry) (Evaluator.putAll entries pairs)
      (Evaluator.putAll (entries.map ρ.entry) (pairs.map ρ.entry)) := by
  refine .get fun h h' hc => .ofExcept ?_
  rw [← List.map_toArray]
  exact hc.putEntries_value entries _

theorem newLoop_carried (items : Ref) (parent : Option Ref) : ρ.Carried ρ.cell
    (Eval.newLoop items parent) (Eval.newLoop (ρ.cell items) (parent.map ρ.cell)) := by
  refine .get fun h h' hc => ?_
  rw [hc.listItems, Array.size_map]
  exact .allocate (.loop ⟨items, _, 0, parent⟩)

theorem passOf_carried (loop : Ref) (index : Nat) : ρ.Carried (Option.map ρ.value)
    (Eval.passOf loop index) (Eval.passOf (ρ.cell loop) index) := by
  refine .get fun h h' hc => ?_
  dsimp only
  rw [hc.loopState]
  have hitem : (h'.listItems (ρ.loopState (h.loopState loop)).items)[index]? =
      (h.listItems (h.loopState loop).items)[index]?.map ρ.value := by
    change (h'.listItems (ρ.cell (h.loopState loop).items))[index]? = _
    rw [hc.listItems, Array.getElem?_map]
  rw [hitem]
  cases (h.listItems (h.loopState loop).items)[index]? with
  | none => exact .pure
  | some v => exact .bind (.write loop (.loop { h.loopState loop with index })) fun _ => .pure

end Renaming

end Stencil
