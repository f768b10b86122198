import Stencil.Evaluation.Expression
import Stencil.Proofs.Renamings

/-!
# Values in renamed heaps

Comparison, keys, texts, operators and the lookup of items and attributes never come to know
where a value is kept: asked about renamed values in the heap that carries them, they answer as
before, or with the renamed value.
-/

namespace Stencil

namespace Renaming

variable (ρ : Renaming)

@[simp] theorem number?_value (v : Value) : (ρ.value v).number? = v.number? := by
  cases v <;> rfl

@[simp] theorem integer?_value (v : Value) : (ρ.value v).integer? = v.integer? := by
  cases v <;> rfl

@[simp] theorem isScalar_value (v : Value) : (ρ.value v).isScalar = v.isScalar := by
  cases v <;> rfl

@[simp] theorem isSequence_value (v : Value) : (ρ.value v).isSequence = v.isSequence := by
  cases v <;> rfl

@[simp] theorem hasItems_value (v : Value) : (ρ.value v).hasItems = v.hasItems := by
  cases v <;> rfl

@[simp] theorem methodsOf_value (v : Value) : (ρ.value v).methodsOf = v.methodsOf := by
  cases v <;> rfl

@[simp] theorem sliceBound_value (v : Value) : (ρ.value v).sliceBound = v.sliceBound := by
  cases v <;> rfl

@[simp] theorem mayRemain_value (v : Value) :
    Percent.mayRemain (ρ.value v) = Percent.mayRemain v := by
  cases v <;> rfl

@[simp] theorem kindName_value (v : Value) : (ρ.value v).kindName = v.kindName := by
  cases v with
  | method receiver name => cases receiver <;> rfl
  | host f => cases f <;> rfl
  | _ => rfl

@[simp] theorem lengthFault?_value (v : Value) :
    Builtins.lengthFault? (ρ.value v) = Builtins.lengthFault? v := by
  have hother := congrArg (fun kind => some (Fault.type
    ("object of type '" ++ kind ++ "' has no len()"))) (ρ.kindName_value v)
  cases v with
  | str s => rfl
  | bytes b => rfl
  | tuple items => rfl
  | list r => rfl
  | dict r => rfl
  | view kind r => rfl
  | set r => rfl
  | undefined => rfl
  | range a b c => rfl
  | _ => exact hother

@[simp] theorem shortKindName_value (v : Value) :
    (ρ.value v).shortKindName = v.shortKindName := by
  cases v with
  | method receiver name => cases receiver <;> rfl
  | host f => cases f <;> rfl
  | _ => rfl

mutual

theorem unhashable?_value : ∀ v : Value, (ρ.value v).unhashable? = v.unhashable?
  | .tuple items => firstUnhashable?_value items
  | .view kind r => by cases kind <;> rfl
  | .slice _ _ _ | .list _ | .dict _ | .set _ | .iterator _ _ | .object _ | .row _ | .textual _
  | .loop _ | .function _ | .method _ _ | .generic _ _ | .none | .ellipsis | .undefined | .bool _
  | .int _ | .float _ | .complex _ _ | .str _ | .bytes _ | .range _ _ _ | .builtin _ | .host _
  | .unboundMethod _ _ | .typeOf _ => rfl

theorem firstUnhashable?_value : ∀ vs : List Value,
    Value.firstUnhashable? (ρ.values vs) = Value.firstUnhashable? vs
  | [] => rfl
  | v :: vs => by
    rw [values, Value.firstUnhashable?, Value.firstUnhashable?, unhashable?_value v,
      firstUnhashable?_value vs]

end

@[simp] theorem asKey_value (v : Value) : (ρ.value v).asKey = v.asKey := by
  unfold Value.asKey
  rw [unhashable?_value]

theorem same_value (a b : Value) : Value.same (ρ.value a) (ρ.value b) = Value.same a b := by
  have href (r s : Ref) : decide (ρ.cell r = ρ.cell s) = decide (r = s) :=
    decide_eq_decide.mpr ρ.cell_inj
  cases a with
  | list r => cases b <;> first | rfl | exact href _ _
  | dict r => cases b <;> first | rfl | exact href _ _
  | set r => cases b <;> first | rfl | exact href _ _
  | object r => cases b <;> first | rfl | exact href _ _
  | row r => cases b <;> first | rfl | exact href _ _
  | textual r => cases b <;> first | rfl | exact href _ _
  | loop r => cases b <;> first | rfl | exact href _ _
  | function r => cases b <;> first | rfl | exact href _ _
  | iterator kind r => cases b <;> first | rfl | exact href _ _
  | _ => cases b <;> rfl

end Renaming

namespace Value

theorem allM_map {α β : Type} (p : β → Answer) (f : α → β) (as : List α) :
    allM p (as.map f) = allM (fun a => p (f a)) as := by
  induction as with
  | nil => rfl
  | cons a as ih => simp only [List.map_cons, allM, ih]

theorem anyM_map {α β : Type} (p : β → Answer) (f : α → β) (as : List α) :
    anyM p (as.map f) = anyM (fun a => p (f a)) as := by
  induction as with
  | nil => rfl
  | cons a as ih => simp only [List.map_cons, anyM, ih]

end Value

namespace Renaming.Carries

variable {ρ : Renaming} {h h' : Heap} (hc : ρ.Carries h h')

include hc

theorem setLike?_value (v : Value) :
    Value.setLike? h' (ρ.value v) = (Value.setLike? h v).map (List.map ρ.value) := by
  cases v with
  | set r => simp [value, Value.setLike?, hc.setItems]
  | view kind r =>
    cases kind with
    | keys => simp [value, Value.setLike?, hc.dictEntries, entry]
    | items => simp [value, values, Value.setLike?, hc.dictEntries, entry]
    | values => rfl
  | _ => rfl

section Parts

variable {eq eq' : Value → Value → Value.Answer} (heq : ∀ a b, eq' (ρ.value a) (ρ.value b) = eq a b)

include heq

omit hc in
theorem findEntry_value (k : Value) (es : List (Value × Value)) :
    Value.findEntry eq' (ρ.value k) (es.map ρ.entry) =
      (Value.findEntry eq k es).map (Option.map ρ.value) := by
  induction es with
  | nil => rfl
  | cons e es ih =>
    obtain ⟨k', v⟩ := e
    rw [List.map_cons]
    simp only [Value.findEntry, entry, heq, ih]
    cases eq k' k with
    | error f => rfl
    | ok found => cases found <;> rfl

omit hc in
theorem sequence_value (xs ys : List Value) :
    (if (xs.map ρ.value).length ≠ (ys.map ρ.value).length then Except.ok false
      else Value.allM (fun e => eq' e.1 e.2) ((xs.map ρ.value).zip (ys.map ρ.value))) =
    if xs.length ≠ ys.length then .ok false
      else Value.allM (fun e => eq e.1 e.2) (xs.zip ys) := by
  rw [List.length_map, List.length_map, List.zip_map, Value.allM_map]
  simp only [Prod.map, heq]

theorem setsEqual_value (a b : Value) :
    (match Value.setLike? h' (ρ.value a), Value.setLike? h' (ρ.value b) with
      | some xs, some ys =>
        if xs.length ≠ ys.length then Except.ok false
        else Value.allM (fun x => Value.anyM (eq' x) ys) xs
      | _, _ => .ok (Value.same (ρ.value a) (ρ.value b))) =
    match Value.setLike? h a, Value.setLike? h b with
      | some xs, some ys =>
        if xs.length ≠ ys.length then .ok false
        else Value.allM (fun x => Value.anyM (eq x) ys) xs
      | _, _ => .ok (Value.same a b) := by
  rw [hc.setLike?_value, hc.setLike?_value, ρ.same_value]
  cases Value.setLike? h a with
  | none => rfl
  | some xs =>
    cases Value.setLike? h b with
    | none => rfl
    | some ys =>
      simp only [Option.map_some, List.length_map, Value.allM_map, Value.anyM_map, heq]

/-- Dictionaries are compared entry by entry, in any order. -/
theorem entriesEqual_value (r s : Ref) :
    (if (h'.dictEntries (ρ.cell r)).toList.length ≠
        (h'.dictEntries (ρ.cell s)).toList.length then Except.ok false
      else Value.allM (fun e => do
        match ← Value.findEntry eq' e.1 (h'.dictEntries (ρ.cell s)).toList with
        | some w => eq' e.2 w
        | .none => return false) (h'.dictEntries (ρ.cell r)).toList) =
      if (h.dictEntries r).toList.length ≠ (h.dictEntries s).toList.length then .ok false
      else Value.allM (fun e => do
        match ← Value.findEntry eq e.1 (h.dictEntries s).toList with
        | some w => eq e.2 w
        | .none => return false) (h.dictEntries r).toList := by
  have hfound := findEntry_value heq
  rw [hc.dictEntries, hc.dictEntries, Array.toList_map, Array.toList_map, List.length_map,
    List.length_map, Value.allM_map]
  congr 2
  funext e
  rw [entry, hfound]
  cases Value.findEntry eq e.1 (h.dictEntries s).toList with
  | error f => rfl
  | ok found =>
    cases found with
    | none => rfl
    | some w => exact heq _ _

theorem equalBy_value (a b : Value) :
    Value.equalBy h' eq' (ρ.value a) (ρ.value b) = Value.equalBy h eq a b := by
  let part (x y : Value) : Value.Answer := if Value.same x y then .ok true else eq x y
  let part' (x y : Value) : Value.Answer := if Value.same x y then .ok true else eq' x y
  have hpart (x y : Value) : part' (ρ.value x) (ρ.value y) = part x y := by
    simp only [part, part', ρ.same_value, heq]
  have hsequence := sequence_value hpart
  have hsets := hc.setsEqual_value hpart
  cases a with
  | tuple xs =>
    cases b with
    | tuple ys =>
      rw [ρ.value_tuple, ρ.value_tuple]
      exact hsequence xs ys
    | _ => rfl
  | list r =>
    cases b with
    | list s =>
      have hitems := hsequence (h.listItems r).toList (h.listItems s).toList
      rw [← Array.toList_map, ← Array.toList_map, ← hc.listItems, ← hc.listItems] at hitems
      by_cases hrs : r = s
      · exact (if_pos (congrArg ρ.cell hrs)).trans (if_pos hrs).symm
      · exact ((if_neg (hrs ∘ ρ.cell_inj.mp)).trans hitems).trans (if_neg hrs).symm
    | _ => rfl
  | dict r =>
    cases b with
    | dict s =>
      have hentries := hc.entriesEqual_value hpart r s
      by_cases hrs : r = s
      · exact (if_pos (congrArg ρ.cell hrs)).trans (if_pos hrs).symm
      · exact ((if_neg (hrs ∘ ρ.cell_inj.mp)).trans hentries).trans (if_neg hrs).symm
    | _ => rfl
  | slice start stop step =>
    cases b with
    | slice start' stop' step' => exact hsequence [start, stop, step] [start', stop', step']
    | _ => rfl
  | view kind r =>
    cases kind with
    | values =>
      cases b with
      | view kind' s =>
        cases kind' with
        | values => exact congrArg Except.ok (decide_eq_decide.mpr ρ.cell_inj)
        | _ => rfl
      | _ => rfl
    | keys => exact hsets (.view .keys r) b
    | items => exact hsets (.view .items r) b
  | method receiver name =>
    cases b with
    | method receiver' name' =>
      change Except.ok (name = name' && (Value.same (ρ.value receiver) (ρ.value receiver') ||
        ((ρ.value receiver).isScalar && (ρ.value receiver).kindName =
          (ρ.value receiver').kindName))) = _
      rw [ρ.same_value, ρ.isScalar_value, ρ.kindName_value, ρ.kindName_value]
      rfl
    | _ => rfl
  | set r => exact hsets (.set r) b
  | object r => exact hsets (.object r) b
  | row r => exact hsets (.row r) b
  | textual r => exact hsets (.textual r) b
  | loop r => exact hsets (.loop r) b
  | function r => exact hsets (.function r) b
  | iterator kind r => exact hsets (.iterator kind r) b
  | _ => cases b <;> rfl

end Parts

theorem equalWithin_value (fuel : Nat) (a b : Value) :
    Value.equalWithin h' fuel (ρ.value a) (ρ.value b) = Value.equalWithin h fuel a b := by
  induction fuel generalizing a b with
  | zero => rfl
  | succ fuel ih => exact hc.equalBy_value ih a b

theorem equal_value (a b : Value) :
    Value.equal h' (ρ.value a) (ρ.value b) = Value.equal h a b := hc.equalWithin_value _ a b

theorem alike_value (a b : Value) :
    Value.alike h' (ρ.value a) (ρ.value b) = Value.alike h a b := by
  unfold Value.alike
  rw [ρ.same_value, hc.equal_value]

theorem contains_value (items : List Value) (v : Value) :
    Value.contains h' (items.map ρ.value) (ρ.value v) = Value.contains h items v := by
  unfold Value.contains
  rw [Value.anyM_map]
  simp only [hc.alike_value]

theorem includes_value (xs ys : List Value) :
    Value.includes h' (xs.map ρ.value) (ys.map ρ.value) = Value.includes h xs ys := by
  unfold Value.includes
  simp only [Value.allM_map, Value.anyM_map, hc.alike_value]

theorem orderSequences_value {cmp cmp' : Value → Value → Value.Answer}
    (hcmp : ∀ a b, cmp' (ρ.value a) (ρ.value b) = cmp a b) (op : Value.Order)
    (xs ys : List Value) :
    Value.orderSequences h' cmp' op (xs.map ρ.value) (ys.map ρ.value) =
      Value.orderSequences h cmp op xs ys := by
  induction xs generalizing ys with
  | nil => cases ys <;> rfl
  | cons x xs ih =>
    cases ys with
    | nil => rfl
    | cons y ys => simp only [List.map_cons, Value.orderSequences, hc.alike_value, hcmp, ih]

omit hc in
theorem noOrder_value (op : Value.Order) (a b : Value) :
    Value.noOrder op (ρ.value a) (ρ.value b) = Value.noOrder op a b := by
  unfold Value.noOrder
  rw [ρ.kindName_value, ρ.kindName_value]

theorem orderSets_value (op : Value.Order) (xs ys : List Value) :
    Value.orderSets h' op (xs.map ρ.value) (ys.map ρ.value) = Value.orderSets h op xs ys := by
  unfold Value.orderSets
  simp only [List.length_map, hc.includes_value]

/-- Sets are ordered by inclusion, and nothing else is ordered along with them. -/
theorem setsOrder_value (op : Value.Order) (a b : Value) :
    (match Value.setLike? h' (ρ.value a), Value.setLike? h' (ρ.value b) with
      | some xs, some ys => Value.orderSets h' op xs ys
      | _, _ => .error (Value.noOrder op (ρ.value a) (ρ.value b))) =
    match Value.setLike? h a, Value.setLike? h b with
      | some xs, some ys => Value.orderSets h op xs ys
      | _, _ => .error (Value.noOrder op a b) := by
  rw [hc.setLike?_value, hc.setLike?_value, noOrder_value]
  cases Value.setLike? h a with
  | none => rfl
  | some xs =>
    cases Value.setLike? h b with
    | none => rfl
    | some ys => exact hc.orderSets_value op xs ys

theorem orderBy_value {cmp cmp' : Value → Value → Value.Answer}
    (hcmp : ∀ a b, cmp' (ρ.value a) (ρ.value b) = cmp a b) (op : Value.Order) (a b : Value) :
    Value.orderBy h' cmp' op (ρ.value a) (ρ.value b) = Value.orderBy h cmp op a b := by
  have hsequence (xs ys : List Value) := hc.orderSequences_value hcmp op xs ys
  have hsets := hc.setsOrder_value op
  cases a with
  | str s =>
    cases b with
    | str t => rfl
    | _ => exact congrArg Except.error (noOrder_value op (.str s) _)
  | bytes s =>
    cases b with
    | bytes t => rfl
    | _ => exact congrArg Except.error (noOrder_value op (.bytes s) _)
  | tuple xs =>
    cases b with
    | tuple ys =>
      rw [ρ.value_tuple, ρ.value_tuple]
      exact hsequence xs ys
    | _ => exact congrArg Except.error (noOrder_value op (.tuple xs) _)
  | list r =>
    cases b with
    | list s =>
      have hitems := hsequence (h.listItems r).toList (h.listItems s).toList
      rw [← Array.toList_map, ← Array.toList_map, ← hc.listItems, ← hc.listItems] at hitems
      exact hitems
    | _ => exact congrArg Except.error (noOrder_value op (.list r) _)
  | set r => exact hsets (.set r) b
  | view kind r => exact hsets (.view kind r) b
  | _ => exact congrArg Except.error (noOrder_value op _ b)

theorem orderWithin_value (op : Value.Order) (fuel : Nat) (a b : Value) :
    Value.orderWithin h' op fuel (ρ.value a) (ρ.value b) = Value.orderWithin h op fuel a b := by
  induction fuel generalizing a b with
  | zero => rfl
  | succ fuel ih =>
    rw [Value.orderWithin, Value.orderWithin, ρ.number?_value, ρ.number?_value, noOrder_value,
      hc.orderBy_value ih]

theorem order_value (op : Value.Order) (a b : Value) :
    Value.order h' op (ρ.value a) (ρ.value b) = Value.order h op a b :=
  hc.orderWithin_value op _ a b

end Renaming.Carries

namespace Renaming

variable (ρ : Renaming)

mutual

theorem hash?_value : ∀ v : Value, (ρ.value v).hash? = v.hash?
  | .tuple items => by rw [value, Value.hash?, Value.hash?, hashes?_value items]
  | .slice _ _ _ | .list _ | .dict _ | .set _ | .view _ _ | .iterator _ _ | .object _ | .row _
  | .textual _ | .loop _ | .function _ | .method _ _ | .generic _ _ | .none | .ellipsis
  | .undefined | .bool _ | .int _ | .float _ | .complex _ _ | .str _ | .bytes _ | .range _ _ _
  | .builtin _ | .host _ | .unboundMethod _ _ | .typeOf _ => rfl

theorem hashes?_value : ∀ vs : List Value, Value.hashes? (ρ.values vs) = Value.hashes? vs
  | [] => rfl
  | v :: vs => by
    rw [values, Value.hashes?, Value.hashes?, hash?_value v, hashes?_value vs]

end

def setTable (t : SetTable) : SetTable := ⟨t.places.map (Option.map ρ.binding), t.used⟩

section Tables

variable (t : SetTable)

theorem setTable_ofSize (n : Nat) : ρ.setTable (.ofSize n) = .ofSize n := by
  simp [setTable, SetTable.ofSize]

theorem setTable_content : (ρ.setTable t).content = t.content.map ρ.binding := by
  unfold SetTable.content setTable
  rw [Array.toList_map, List.filterMap_map, List.map_filterMap]
  rfl

theorem setTable_items : (ρ.setTable t).items = t.items.map ρ.value := by
  unfold SetTable.items
  rw [setTable_content, List.map_map, List.map_map]
  rfl

theorem setTable_isFree (i : Nat) : (ρ.setTable t).isFree i = t.isFree i := by
  unfold SetTable.isFree setTable
  simp only [Array.getD_eq_getD_getElem?, Array.getElem?_map]
  cases t.places[i]? with
  | none => rfl
  | some e => cases e <;> rfl

theorem setTable_size : (ρ.setTable t).places.size = t.places.size := Array.size_map

theorem setTable_freePlace (fuel rest i : Nat) :
    (ρ.setTable t).freePlace fuel rest i = t.freePlace fuel rest i := by
  induction fuel generalizing rest i with
  | zero => rfl
  | succ fuel ih => simp only [SetTable.freePlace, setTable_size, setTable_isFree, ih]

theorem setTable_place (e : UInt64 × Value) :
    ρ.setTable (t.place e) = (ρ.setTable t).place (ρ.binding e) := by
  unfold SetTable.place
  simp only [setTable_size, setTable_freePlace]
  simp [setTable, binding, Array.map_setIfInBounds]

theorem setTable_places (es : List (UInt64 × Value)) :
    ρ.setTable (es.foldl SetTable.place t) =
      (es.map ρ.binding).foldl SetTable.place (ρ.setTable t) := by
  induction es generalizing t with
  | nil => rfl
  | cons e es ih => rw [List.foldl_cons, ih, setTable_place, List.map_cons, List.foldl_cons]

theorem setTable_resized (n : Nat) : ρ.setTable (t.resized n) = (ρ.setTable t).resized n := by
  unfold SetTable.resized
  rw [setTable_places, setTable_ofSize, setTable_content]

theorem setTable_add (e : UInt64 × Value) :
    ρ.setTable (t.add e) = (ρ.setTable t).add (ρ.binding e) := by
  have hused (t : SetTable) : (ρ.setTable t).used = t.used := rfl
  unfold SetTable.add
  dsimp only
  rw [← setTable_place, setTable_size, hused, ← setTable_resized]
  exact apply_ite ρ.setTable _ _ _

theorem setTable_ofList (es : List (UInt64 × Value)) :
    ρ.setTable (.ofList es) = .ofList (es.map ρ.binding) := by
  have hadds (t : SetTable) : ρ.setTable (es.foldl SetTable.add t) =
      (es.map ρ.binding).foldl SetTable.add (ρ.setTable t) := by
    induction es generalizing t with
    | nil => rfl
    | cons e es ih => rw [List.foldl_cons, ih, setTable_add, List.map_cons, List.foldl_cons]
  unfold SetTable.ofList
  rw [hadds]
  unfold SetTable.empty
  rw [setTable_ofSize]

theorem setTable_copied : ρ.setTable t.copied = (ρ.setTable t).copied := by
  have hused : (ρ.setTable t).used = t.used := rfl
  have hempty : ρ.setTable .empty = .empty := ρ.setTable_ofSize _
  unfold SetTable.copied
  dsimp only
  rw [setTable_size, hused, setTable_content, apply_ite ρ.setTable, setTable_places,
    apply_ite ρ.setTable, hempty, setTable_ofSize]

end Tables

theorem hashed?_values (items : List Value) :
    Value.hashed? (items.map ρ.value) = (Value.hashed? items).map (List.map ρ.binding) := by
  unfold Value.hashed?
  induction items with
  | nil => rfl
  | cons v items ih =>
    rw [List.map_cons, List.mapM_cons, List.mapM_cons, ih, hash?_value]
    cases v.hash? with
    | none => rfl
    | some hash =>
      cases items.mapM fun v => v.hash?.map (·, v) with
      | none => rfl
      | some es => rfl

theorem arrange_values (items : List Value) :
    Value.arrange (items.map ρ.value) = (Value.arrange items).map ρ.value := by
  unfold Value.arrange
  rw [hashed?_values]
  cases Value.hashed? items with
  | none => rfl
  | some es =>
    dsimp only [Option.map_some]
    rw [← setTable_ofList, setTable_items]

theorem arrangeConstants_values (items : List Value) :
    Value.arrangeConstants (items.map ρ.value) = (Value.arrangeConstants items).map ρ.value := by
  unfold Value.arrangeConstants
  rw [hashed?_values]
  cases Value.hashed? items with
  | none => rfl
  | some es =>
    dsimp only [Option.map_some]
    rw [← setTable_ofList, setTable_content, ← setTable_ofList, ← setTable_copied, setTable_items]

end Renaming

theorem Except.bind_eq_map {ε α β γ δ : Type} {e : Except ε α} {e' : Except ε β} {f : α → β}
    {g : γ → δ} {k : α → Except ε γ} {k' : β → Except ε δ} (he : e' = e.map f)
    (hk : ∀ a, k' (f a) = (k a).map g) : (e' >>= k') = (e >>= k).map g := by
  subst he
  cases e with
  | error f => rfl
  | ok a => exact hk a

theorem Except.bind_same_eq_map {ε α γ δ : Type} {e : Except ε α} {g : γ → δ} {k : α → Except ε γ}
    {k' : α → Except ε δ} (hk : ∀ a, k' a = (k a).map g) : (e >>= k') = (e >>= k).map g := by
  cases e with
  | error f => rfl
  | ok a => exact hk a

theorem List.foldlM_eq_map {ε σ τ α β : Type} {f : σ → τ} {g : α → β} {step : σ → α → Except ε σ}
    {step' : τ → β → Except ε τ} (hstep : ∀ s a, step' (f s) (g a) = (step s a).map f)
    (as : List α) (s : σ) : (as.map g).foldlM step' (f s) = (as.foldlM step s).map f := by
  induction as generalizing s with
  | nil => rfl
  | cons a as ih => exact Except.bind_eq_map (hstep s a) ih

theorem Array.eraseIdxIfInBounds_map' {α β : Type} (f : α → β) (as : Array α) (i : Nat) :
    (as.map f).eraseIdxIfInBounds i = (as.eraseIdxIfInBounds i).map f := by
  apply Array.ext'
  simp [List.eraseIdx_eq_take_drop_succ, List.map_take, List.map_drop]

namespace Renaming.Carries

variable {ρ : Renaming} {h h' : Heap} (hc : ρ.Carries h h')

omit hc in
theorem keys_entries (entries : Array (Value × Value)) :
    (entries.map ρ.entry).toList.map (·.1) = (entries.toList.map (·.1)).map ρ.value := by
  rw [Array.toList_map, List.map_map, List.map_map]
  rfl

include hc

theorem search_value (k : Value) (i : Nat) (keys : List Value) :
    Value.indexOfKey.search h' (ρ.value k) i (keys.map ρ.value) =
      Value.indexOfKey.search h k i keys := by
  induction keys generalizing i with
  | nil => rfl
  | cons key keys ih => simp only [List.map_cons, Value.indexOfKey.search, hc.alike_value, ih]

theorem indexOfKey_value (k : Value) (keys : List Value) :
    Value.indexOfKey h' (ρ.value k) (keys.map ρ.value) = Value.indexOfKey h k keys := by
  unfold Value.indexOfKey
  rw [ρ.asKey_value, hc.search_value]

theorem lookupKey?_value (entries : Array (Value × Value)) (k : Value) :
    Value.lookupKey? h' (entries.map ρ.entry) (ρ.value k) =
      (Value.lookupKey? h entries k).map (Option.map ρ.value) := by
  unfold Value.lookupKey?
  rw [keys_entries, hc.indexOfKey_value]
  refine Except.bind_same_eq_map fun found => ?_
  cases found with
  | none => rfl
  | some i =>
    refine congrArg Except.ok ?_
    rw [Array.getElem?_map, Option.map_map, Option.map_map]
    rfl

theorem putEntry_value (entries : Array (Value × Value)) (k v : Value) :
    Value.putEntry h' (entries.map ρ.entry) (ρ.value k) (ρ.value v) =
      (Value.putEntry h entries k v).map (Array.map ρ.entry) := by
  unfold Value.putEntry
  rw [keys_entries, hc.indexOfKey_value]
  refine Except.bind_same_eq_map fun found => ?_
  cases found with
  | none => exact congrArg Except.ok (Array.map_push (f := ρ.entry) (x := (k, v))).symm
  | some i =>
    refine congrArg Except.ok (Array.ext_getElem? fun j => ?_)
    rw [Array.getElem?_modify, Array.getElem?_map, Array.getElem?_map, Array.getElem?_modify]
    split
    · cases entries[j]? <;> rfl
    · rfl

theorem putEntries_value (entries more : Array (Value × Value)) :
    Value.putEntries h' (entries.map ρ.entry) (more.map ρ.entry) =
      (Value.putEntries h entries more).map (Array.map ρ.entry) := by
  unfold Value.putEntries
  rw [← Array.foldlM_toList, ← Array.foldlM_toList, Array.toList_map]
  exact List.foldlM_eq_map (fun es e => hc.putEntry_value es e.1 e.2) _ _

theorem eraseEntry_value (entries : Array (Value × Value)) (k : Value) :
    Value.eraseEntry h' (entries.map ρ.entry) (ρ.value k) = (Value.eraseEntry h entries k).map
      (Option.map fun e => (ρ.value e.1, e.2.map ρ.entry)) := by
  unfold Value.eraseEntry
  rw [keys_entries, hc.indexOfKey_value]
  refine Except.bind_same_eq_map fun found => ?_
  cases found with
  | none => rfl
  | some i =>
    refine congrArg Except.ok ?_
    rw [Array.getElem?_map, Option.map_map, Option.map_map, Array.eraseIdxIfInBounds_map']
    rfl

theorem addItem_value (items : List Value) (v : Value) :
    Value.addItem h' (items.map ρ.value) (ρ.value v) =
      (Value.addItem h items v).map (List.map ρ.value) := by
  unfold Value.addItem
  rw [hc.indexOfKey_value]
  refine Except.bind_same_eq_map fun found => ?_
  cases found with
  | none =>
    refine congrArg Except.ok ?_
    rw [List.map_append]
    rfl
  | some i => rfl

theorem addItems_value (items vs : List Value) :
    (vs.map ρ.value).foldlM (Value.addItem h') (items.map ρ.value) =
      (vs.foldlM (Value.addItem h) items).map (List.map ρ.value) :=
  List.foldlM_eq_map hc.addItem_value vs items

theorem setOf_value (items : List Value) :
    Value.setOf h' (items.map ρ.value) = (Value.setOf h items).map (Array.map ρ.value) := by
  unfold Value.setOf
  refine Except.bind_eq_map (hc.addItems_value [] items) fun all => congrArg Except.ok ?_
  rw [ρ.arrange_values, List.map_toArray]

end Renaming.Carries

end Stencil
