import Stencil.Proofs.CarriedTexts

/-!
# Items and attributes in renamed heaps

How long a value is, whether it counts as true, which of its items a subscript means and what
its attributes are: all of this is carried over by a renaming.
-/

namespace Stencil

namespace Renaming

variable (ρ : Renaming)

theorem cut_value (size : Nat) (start stop step : Value) :
    Value.cut size (ρ.value start) (ρ.value stop) (ρ.value step) =
      Value.cut size start stop step := by
  unfold Value.cut
  simp only [ρ.sliceBound_value]

theorem place_value (w : Value.Wording) (size : Nat) (index : Value) :
    Value.place w size (ρ.value index) = Value.place w size index := by
  unfold Value.place
  rw [ρ.integer?_value, ρ.kindName_value]

theorem apply_map {α β : Type} (f : α → β) (c : Cut) (items : Array α) :
    c.apply (items.map f) = (c.apply items).map f := by
  unfold Cut.apply
  rw [List.map_filterMap]
  congr 1
  funext i
  exact Array.getElem?_map

theorem selectItem_map {α β : Type} (f : α → β) (w : Value.Wording) (items : Array α)
    (index : Value) :
    (do
      match (items.map f)[← Value.place w (items.map f).size (ρ.value index)]? with
      | some a => return Sum.inl a
      | .none => throw (.index w.outOfRange) : Except Fault (Sum β (List β))) =
    (do
      match items[← Value.place w items.size index]? with
      | some a => return Sum.inl a
      | .none => throw (.index w.outOfRange) : Except Fault (Sum α (List α))).map
        (Sum.map f (List.map f)) := by
  rw [Array.size_map, ρ.place_value]
  refine Except.bind_same_eq_map fun i => ?_
  rw [Array.getElem?_map]
  cases items[i]? with
  | none => rfl
  | some a => rfl

theorem select_map {α β : Type} (f : α → β) (w : Value.Wording) (items : Array α)
    (index : Value) : Value.select w (items.map f) (ρ.value index) =
      (Value.select w items index).map (Sum.map f (List.map f)) := by
  have hplace := ρ.selectItem_map f w items index
  cases index with
  | slice start stop step =>
    change (do return Sum.inr ((← Value.cut (items.map f).size (ρ.value start) (ρ.value stop)
      (ρ.value step)).apply (items.map f))) = _
    rw [Array.size_map, ρ.cut_value]
    refine Except.bind_same_eq_map fun c => ?_
    rw [apply_map]
    rfl
  | _ => exact hplace

theorem select_value {α : Type} (w : Value.Wording) (items : Array α) (index : Value) :
    Value.select w items (ρ.value index) = Value.select w items index := by
  have h := ρ.select_map id w items index
  rw [Array.map_id] at h
  rw [h]
  cases Value.select w items index with
  | error f => rfl
  | ok found => cases found <;> simp [Except.map]

theorem rangeItem_value (start stop step : Int) (index : Value) :
    (match (ρ.value index).integer? with
      | .none => Except.error (Fault.type (Value.rangeWording.wrongKind (ρ.value index).kindName))
      | some n =>
        let i := if n < 0 then n + Value.rangeLength start stop step else n
        if i < 0 || i ≥ Value.rangeLength start stop step then
          .error (.index Value.rangeWording.outOfRange)
        else .ok (.int (Value.rangeItem start step i.toNat))) =
    (match index.integer? with
      | .none => Except.error (Fault.type (Value.rangeWording.wrongKind index.kindName))
      | some n =>
        let i := if n < 0 then n + Value.rangeLength start stop step else n
        if i < 0 || i ≥ Value.rangeLength start stop step then
          .error (.index Value.rangeWording.outOfRange)
        else .ok (.int (Value.rangeItem start step i.toNat)) : Except Fault Value).map ρ.value := by
  rw [ρ.integer?_value, ρ.kindName_value]
  cases index.integer? with
  | none => rfl
  | some n =>
    dsimp only
    generalize (if n < 0 then n + Value.rangeLength start stop step else n) = i
    cases decide (i < 0) || decide (i ≥ Value.rangeLength start stop step) <;> rfl

theorem selectRange_value (start stop step : Int) (index : Value) :
    Value.selectRange start stop step (ρ.value index) =
      (Value.selectRange start stop step index).map ρ.value := by
  have hitem := ρ.rangeItem_value start stop step index
  cases index with
  | slice a b c =>
    change (do
      let c ← Value.cut (Value.rangeLength start stop step) (ρ.value a) (ρ.value b) (ρ.value c)
      return Value.range (start + c.start * step) (start + c.stop * step) (c.step * step)) = _
    rw [ρ.cut_value]
    exact Except.bind_same_eq_map fun c => rfl
  | _ => exact hitem

theorem notSubscriptable_value (v : Value) :
    Value.notSubscriptable (ρ.value v) = Value.notSubscriptable v := by
  have hkind := congrArg (fun kind => Fault.type ("'" ++ kind ++ "' object is not subscriptable"))
    (ρ.kindName_value v)
  cases v with
  | builtin b => rfl
  | _ => exact hkind

theorem noAttribute_value (v : Value) (name : String) :
    Value.noAttribute (ρ.value v) name = Value.noAttribute v name := by
  have hkind := congrArg (fun kind => Fault.missingAttribute
    ("'" ++ kind ++ "' object has no attribute '" ++ name ++ "'")) (ρ.kindName_value v)
  cases v with
  | builtin b => rfl
  | undefined => rfl
  | _ => exact hkind

theorem isEmpty_map {α β : Type} (f : α → β) (items : Array α) :
    (items.map f).isEmpty = items.isEmpty := by
  unfold Array.isEmpty
  rw [Array.size_map]

namespace Carries

variable {ρ} {h h' : Heap} (hc : ρ.Carries h h')

include hc

theorem truth_value (v : Value) : Value.truth h' (ρ.value v) = Value.truth h v := by
  cases v with
  | tuple items =>
    rw [ρ.value_tuple]
    exact congrArg (!·) List.isEmpty_map
  | list r => exact congrArg (!·) ((congrArg Array.isEmpty (hc.listItems r)).trans (isEmpty_map _ _))
  | dict r => exact congrArg (!·) ((congrArg Array.isEmpty (hc.dictEntries r)).trans (isEmpty_map _ _))
  | view kind r =>
    exact congrArg (!·) ((congrArg Array.isEmpty (hc.dictEntries r)).trans (isEmpty_map _ _))
  | set r => exact congrArg (!·) ((congrArg Array.isEmpty (hc.setItems r)).trans (isEmpty_map _ _))
  | _ => rfl

theorem lengthOf_value (v : Value) : Builtins.lengthOf h' (ρ.value v) = Builtins.lengthOf h v := by
  have hother := congrArg (fun kind => (Except.error (Fault.type
    ("object of type '" ++ kind ++ "' has no len()")) : Except Fault Nat)) (ρ.kindName_value v)
  cases v with
  | tuple items =>
    rw [ρ.value_tuple]
    exact congrArg Except.ok (List.length_map ρ.value)
  | list r =>
    exact congrArg Except.ok ((congrArg Array.size (hc.listItems r)).trans Array.size_map)
  | dict r =>
    exact congrArg Except.ok ((congrArg Array.size (hc.dictEntries r)).trans Array.size_map)
  | view kind r =>
    exact congrArg Except.ok ((congrArg Array.size (hc.dictEntries r)).trans Array.size_map)
  | set r =>
    exact congrArg Except.ok ((congrArg Array.size (hc.setItems r)).trans Array.size_map)
  | str s => rfl
  | bytes b => rfl
  | range a b c => rfl
  | undefined => rfl
  | _ => exact hother

theorem itemAt_loopState (s : LoopState) (i : Nat) :
    (ρ.loopState s).itemAt h' i = (s.itemAt h i).map ρ.value := by
  unfold LoopState.itemAt
  rw [Renaming.loopState, hc.listItems, Array.getElem?_map]
  cases (h.listItems s.items)[i]? <;> rfl

theorem nesting_cell (r : Ref) : LoopState.nesting h' (ρ.cell r) = LoopState.nesting h r := by
  have hparent (r : Ref) : (h'.loopState (ρ.cell r)).parent = (h.loopState r).parent.map ρ.cell := by
    rw [hc.loopState]
    rfl
  fun_induction LoopState.nesting h r with
  | case1 r houtermost =>
    rw [LoopState.nesting.eq_def h', hparent, houtermost]
    rfl
  | case2 r parent hmother hmade ih =>
    rw [LoopState.nesting.eq_def h', hparent, hmother]
    change (if ρ.cell parent < ρ.cell r then _ else _) = _
    rw [if_pos (ρ.cell_lt hmade), ih]
  | case3 r parent hmother hmade =>
    rw [LoopState.nesting.eq_def h', hparent, hmother]
    change (if ρ.cell parent < ρ.cell r then _ else _) = _
    rw [if_neg (hmade ∘ ρ.cell_lt_iff.mp)]

theorem depth_loopState (s : LoopState) : (ρ.loopState s).depth h' = s.depth h := by
  unfold LoopState.depth
  rw [Renaming.loopState]
  cases s.parent with
  | none => rfl
  | some parent => exact congrArg (· + 1) (hc.nesting_cell parent)

theorem previous_loopState (s : LoopState) :
    (ρ.loopState s).previous h' = (s.previous h).map ρ.value := by
  unfold LoopState.previous
  rw [hc.itemAt_loopState]
  change (if s.index = 0 then _ else _) = _
  split <;> rfl

theorem next_loopState (s : LoopState) :
    (ρ.loopState s).next h' = (s.next h).map ρ.value := by
  unfold LoopState.next
  rw [hc.itemAt_loopState]
  change (if s.remaining ≤ 0 then _ else _) = _
  split <;> rfl

theorem property?_loopState (s : LoopState) (name : String) :
    (ρ.loopState s).property? h' name = (s.property? h name).map (Except.map ρ.value) := by
  have hparent : (ρ.loopState s).parentValue = ρ.value s.parentValue := by
    unfold LoopState.parentValue
    rw [Renaming.loopState]
    cases s.parent <;> rfl
  unfold LoopState.property?
  rw [hc.previous_loopState, hc.next_loopState, hc.depth_loopState, hparent]
  dsimp only
  split <;> rfl

omit hc in
theorem cycle_loopState (s : LoopState) (values : List Value) :
    (ρ.loopState s).cycle (values.map ρ.value) = ρ.value (s.cycle values) := by
  unfold LoopState.cycle
  rw [List.length_map, List.getElem?_map]
  change Option.getD (Option.map ρ.value values[s.index % values.length]?) Value.none = _
  cases values[s.index % values.length]? <;> rfl

theorem property?_value (v : Value) (name : String) :
    Value.property? h' (ρ.value v) name =
      (Value.property? h v name).map (Except.map ρ.value) := by
  cases v with
  | object r =>
    change ((h'.fields (ρ.cell r)).lookup name).map Except.ok = _
    rw [hc.fields]
    change (BindingsOf.get? (ρ.bindings (h.fields r)) name).map Except.ok = _
    rw [ρ.bindings_get?, Option.map_map]
    exact (Option.map_map (Except.map ρ.value) Except.ok _).symm
  | loop r =>
    change (h'.loopState (ρ.cell r)).property? h' name = _
    rw [hc.loopState]
    exact hc.property?_loopState _ name
  | slice start stop step =>
    by_cases hstart : name = "start"
    · rw [hstart]
      rfl
    · by_cases hstop : name = "stop"
      · rw [hstop]
        rfl
      · by_cases hstep : name = "step"
        · rw [hstep]
          rfl
        · simp [value, Value.property?, hstart, hstop, hstep]
  | row r =>
    by_cases hdata : name = "_data"
    · rw [hdata]
      rfl
    · simp [value, Value.property?, hdata]
  | bool _ | int _ | float _ | complex _ _ | range _ _ _ | undefined =>
    unfold Value.property?
    dsimp only [value]
    split <;> first | rfl | contradiction
  | _ => rfl

theorem ownAttribute_value (v : Value) (name : String) :
    Value.ownAttribute h' (ρ.value v) name = (Value.ownAttribute h v name).map ρ.value := by
  unfold Value.ownAttribute
  rw [hc.property?_value]
  cases Value.property? h v name with
  | some result => rfl
  | none =>
    have hmissing := ρ.noAttribute_value v name
    dsimp only [Option.map_none]
    rw [ρ.methodsOf_value]
    split
    · rfl
    · cases v with
      | builtin b =>
        dsimp only [value]
        split <;> rfl
      | _ => exact congrArg Except.error hmissing

end Carries

end Renaming

end Stencil
