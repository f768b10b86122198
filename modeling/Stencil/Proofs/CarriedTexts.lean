import Stencil.Proofs.CarriedValues

/-!
# Texts of values in renamed heaps

The written form of a value shows what is in it, never where it is kept, and so does everything
that is made from written forms: plain text, format specifications and percent formatting.
-/

namespace Stencil

namespace Renaming.Carries

variable {ρ : Renaming} {h h' : Heap} (hc : ρ.Carries h h')

include hc

section Parts

variable {part part' : List Ref → Value → Value.Shown}
  (hpart : ∀ inside v, part' (inside.map ρ.cell) (ρ.value v) = part inside v)

include hpart

omit hc in
theorem parts_written (inside : List Ref) (vs : List Value) :
    (vs.map ρ.value).mapM (part' (inside.map ρ.cell)) = vs.mapM (part inside) := by
  rw [List.mapM_map]
  congr 1
  funext v
  exact hpart inside v

omit hc hpart in
theorem inside_contains (inside : List Ref) (r : Ref) :
    (inside.map ρ.cell).contains (ρ.cell r) = inside.contains r := by
  rw [Bool.eq_iff_iff, List.contains_iff_mem, List.contains_iff_mem, List.mem_map]
  constructor
  · rintro ⟨s, hs, heq⟩
    exact ρ.cell_inj.mp heq ▸ hs
  · exact fun hr => ⟨r, hr, rfl⟩

omit hc in
theorem entries_written (inside : List Ref) (es : List (Value × Value)) :
    (es.map ρ.entry).mapM (fun e => do
      return (← part' (inside.map ρ.cell) e.1) ++ ": " ++ (← part' (inside.map ρ.cell) e.2)) =
    es.mapM fun e => do return (← part inside e.1) ++ ": " ++ (← part inside e.2) := by
  rw [List.mapM_map]
  congr 1
  funext e
  simp only [Function.comp, entry, hpart]

omit hc in
theorem viewed_written (kind : ViewKind) (inside : List Ref) (es : List (Value × Value)) :
    ((es.map ρ.entry).mapM fun e =>
      match kind with
      | .keys => part' (inside.map ρ.cell) e.1
      | .values => part' (inside.map ρ.cell) e.2
      | .items => part' (inside.map ρ.cell) (.tuple [e.1, e.2])) =
    es.mapM fun e =>
      match kind with
      | .keys => part inside e.1
      | .values => part inside e.2
      | .items => part inside (.tuple [e.1, e.2]) := by
  rw [List.mapM_map]
  congr 1
  funext e
  cases kind with
  | keys => exact hpart inside e.1
  | values => exact hpart inside e.2
  | items => exact hpart inside (.tuple [e.1, e.2])

omit hc in
theorem parameterText_value (inside : List Ref) (v : Value) :
    Value.parameterText (part' (inside.map ρ.cell)) (ρ.value v) =
      Value.parameterText (part inside) v := by
  have hv := hpart inside v
  cases v with
  | builtin b => rfl
  | ellipsis => rfl
  | _ => exact hv

omit hc in
theorem parameterTexts_value (inside : List Ref) (v : Value) :
    Value.parameterTexts (part' (inside.map ρ.cell)) (ρ.value v) =
      Value.parameterTexts (part inside) v := by
  have htext := parameterText_value hpart inside
  cases v with
  | tuple items =>
    rw [ρ.value_tuple]
    cases items with
    | nil => rfl
    | cons v vs =>
      change ((v :: vs).map ρ.value).mapM _ = (v :: vs).mapM _
      rw [List.mapM_map]
      congr 1
      funext w
      exact htext w
  | _ => exact congrArg (fun shown : Value.Shown => do return [← shown]) (htext _)

theorem writtenBy_value (inside : List Ref) (v : Value) :
    Value.writtenBy h' part' (inside.map ρ.cell) (ρ.value v) =
      Value.writtenBy h part inside v := by
  have hparts := parts_written hpart
  have hcontains := inside_contains (ρ := ρ)
  have hentries := entries_written hpart
  have hviewed := viewed_written hpart
  cases v with
  | tuple items =>
    rw [ρ.value_tuple]
    cases items with
    | nil => rfl
    | cons v vs =>
      cases vs with
      | nil =>
        change (do return "(" ++ (← part' _ (ρ.value v)) ++ ",)") = _
        rw [hpart]
        rfl
      | cons w ws =>
        change (do
          return "(" ++ Value.commaSeparated
            (← ((v :: w :: ws).map ρ.value).mapM (part' (inside.map ρ.cell))) ++ ")") = _
        rw [hparts]
        rfl
  | slice start stop step =>
    change (do
      return "slice(" ++ Value.commaSeparated
        (← ([start, stop, step].map ρ.value).mapM (part' (inside.map ρ.cell))) ++ ")") = _
    rw [hparts]
    rfl
  | list r =>
    unfold Value.writtenBy
    simp only [value, hcontains, hc.listItems, Array.toList_map]
    rw [← List.map_cons, hparts]
  | dict r =>
    unfold Value.writtenBy
    simp only [value, hcontains, hc.dictEntries, Array.toList_map]
    rw [← List.map_cons, hentries]
  | set r =>
    unfold Value.writtenBy
    simp only [value, hc.setItems, Array.toList_map]
    rw [hparts]
  | view kind r =>
    have hitems := hviewed kind (r :: inside) (h.dictEntries r).toList
    unfold Value.writtenBy
    simp only [value, hcontains, hc.dictEntries, Array.toList_map]
    rw [← List.map_cons]
    cases kind with
    | keys => rw [hitems]
    | values => rw [hitems]
    | items => rw [hitems]
  | loop r =>
    unfold Value.writtenBy
    simp only [value, hc.loopState]
    rfl
  | function r =>
    unfold Value.writtenBy
    simp only [value, hc.title]
  | method receiver name =>
    unfold Value.writtenBy
    simp only [value, ρ.kindName_value]
  | generic b parameter =>
    unfold Value.writtenBy
    simp only [value, parameterTexts_value hpart]
  | _ => rfl

end Parts

theorem writtenWithin_value (fuel : Nat) (inside : List Ref) (v : Value) :
    Value.writtenWithin h' fuel (inside.map ρ.cell) (ρ.value v) =
      Value.writtenWithin h fuel inside v := by
  induction fuel generalizing inside v with
  | zero => rfl
  | succ fuel ih => exact hc.writtenBy_value ih inside v

theorem written_value (v : Value) : Value.written h' (ρ.value v) = Value.written h v :=
  hc.writtenWithin_value _ [] v

theorem text_value (v : Value) : Value.text h' (ρ.value v) = Value.text h v := by
  have hwritten := hc.written_value v
  cases v with
  | textual r => exact congrArg Except.ok (hc.textOf r)
  | str s => rfl
  | undefined => rfl
  | _ => exact hwritten

theorem outputText_value (v : Value) : Value.outputText h' (ρ.value v) = Value.outputText h v := by
  have htext := hc.text_value v
  cases v with
  | none => rfl
  | _ => exact htext

theorem missingKey_value (k : Value) :
    Value.missingKey h' (ρ.value k) = (Value.missingKey h k).map ρ.value := by
  unfold Value.missingKey
  rw [hc.written_value]
  cases Value.written h k with
  | ok text => rfl
  | error f => rfl

theorem formatted_value (v : Value) (spec : String) :
    Value.formatted h' (ρ.value v) spec = Value.formatted h v spec := by
  unfold Value.formatted
  rw [hc.text_value]
  split
  · rfl
  · cases v with
    | method receiver name => cases receiver <;> rfl
    | host f => cases f <;> rfl
    | _ => rfl

theorem functionTitle_value (f : Value) :
    Evaluator.functionTitle h' (ρ.value f) = Evaluator.functionTitle h f := by
  cases f with
  | function r => exact hc.title r
  | method receiver name =>
    exact congrArg (· ++ "." ++ name) (ρ.kindName_value receiver)
  | _ => rfl

end Renaming.Carries

namespace Renaming

variable (ρ : Renaming)

def supply (s : Percent.Supply) : Percent.Supply :=
  { s with rest := s.rest.map ρ.value, mapping := s.mapping.map ρ.cell }

/-- With renamed arguments to hand out, the second does what the first does; `f` renames what
comes of it. -/
def Fills {α β : Type} (f : α → β) (x : Percent.Fill α) (y : Percent.Fill β) : Prop :=
  ∀ cs s, (y.run cs).run (ρ.supply s) =
    ((x.run cs).run s).map fun r => ((f r.1.1, r.1.2), ρ.supply r.2)

namespace Fills

variable {ρ} {α β γ δ : Type} {f : α → β} {g : γ → δ}

theorem pure {a : α} : ρ.Fills f (Pure.pure a) (Pure.pure (f a)) := fun _ _ => rfl

theorem throw (fault : Fault) :
    ρ.Fills f (MonadExcept.throw fault) (MonadExcept.throw fault) := fun _ _ => rfl

theorem bind {x : Percent.Fill α} {y : Percent.Fill β} {k : α → Percent.Fill γ}
    {k' : β → Percent.Fill δ} (hx : ρ.Fills f x y) (hk : ∀ a, ρ.Fills g (k a) (k' (f a))) :
    ρ.Fills g (x >>= k) (y >>= k') := by
  intro cs s
  exact Except.bind_eq_map (hx cs s) fun r => hk r.1.1 r.1.2 r.2

theorem failed (fault : Fault) {k : α → Percent.Fill γ} {k' : α → Percent.Fill δ} :
    ρ.Fills g (MonadExcept.throw fault >>= k) (MonadExcept.throw fault >>= k') := fun _ _ => rfl

theorem lift (e : Except Fault α) :
    ρ.Fills id (liftM e : Percent.Fill α) (liftM e : Percent.Fill α) := by
  intro cs s
  cases e <;> rfl

theorem get {k : List Char → Percent.Fill γ} {k' : List Char → Percent.Fill δ}
    (hk : ∀ cs, ρ.Fills g (k cs) (k' cs)) :
    ρ.Fills g (MonadState.get >>= k) (MonadState.get >>= k') := fun cs s => hk cs cs s

theorem set (cs : List Char) : ρ.Fills id (MonadStateOf.set cs) (MonadStateOf.set cs) :=
  fun _ _ => rfl

theorem skip (n : Nat) : ρ.Fills id (Percent.skip n) (Percent.skip n) := fun _ _ => rfl

theorem peek : ρ.Fills id Percent.peek Percent.peek := fun _ _ => rfl

theorem supply {k k' : Percent.Supply → Percent.Fill γ} {g : γ → γ}
    (hk : ∀ s, ρ.Fills g (k s) (k' (ρ.supply s))) :
    ρ.Fills g (getThe Percent.Supply >>= k) (getThe Percent.Supply >>= k') :=
  fun cs s => hk s cs s

theorem nextArgument : ρ.Fills ρ.value Percent.nextArgument Percent.nextArgument := by
  intro cs s
  obtain ⟨rest, single, mapping⟩ := s
  cases rest with
  | nil => rfl
  | cons v rest => rfl

theorem size (limit : Nat) (what : String) :
    ρ.Fills id (Percent.size limit what) (Percent.size limit what) := by
  unfold Percent.size
  refine get fun cs => ?_
  split
  · refine bind (set _) fun _ => bind nextArgument fun v => ?_
    cases v with
    | int n => exact pure
    | bool b => exact pure
    | _ => exact throw _
  · refine bind (skip _) fun _ => ?_
    dsimp only
    split
    · exact failed _
    · exact pure

theorem readPrecision : ρ.Fills id Percent.readPrecision Percent.readPrecision := by
  refine bind peek fun c => ?_
  dsimp only [id]
  split
  · exact bind (skip 1) fun _ => bind (size _ _) fun n => pure
  · exact pure

theorem skipLength : ρ.Fills id Percent.skipLength Percent.skipLength :=
  bind peek fun _ => skip _

theorem readType : ρ.Fills id Percent.readType Percent.readType := by
  refine bind peek fun c => ?_
  dsimp only [id]
  split
  · exact bind (skip 1) fun _ => pure
  · exact throw _

section Heaps

variable {h h' : Heap} (hc : ρ.Carries h h')

include hc

omit hc in
theorem isNamed_entry (label : List Char) (e : Value × Value) :
    Percent.isNamed label (ρ.entry e) = Percent.isNamed label e := by
  obtain ⟨k, v⟩ := e
  cases k <;> rfl

theorem takeNamed : ρ.Fills id (Percent.takeNamed h) (Percent.takeNamed h') := by
  unfold Percent.takeNamed
  refine get fun cs => ?_
  split
  · refine supply fun s => ?_
    obtain ⟨rest, single, mapping⟩ := s
    cases mapping with
    | none => exact throw _
    | some r =>
      dsimp only [Renaming.supply, Option.map_some]
      split
      · refine bind (set _) fun _ => ?_
        have hnamed (label : List Char) :
            Percent.isNamed label ∘ ρ.entry = Percent.isNamed label :=
          funext (isNamed_entry label)
        rw [hc.dictEntries, Array.find?_map, hnamed]
        cases (h.dictEntries r).find? (Percent.isNamed _) with
        | none => exact throw _
        | some e => exact fun _ _ => rfl
      · exact throw _
  · exact pure

omit hc in
theorem oneCharacter_value (v : Value) :
    Percent.oneCharacter (ρ.value v) = Percent.oneCharacter v := by
  cases v <;> rfl

omit hc in
theorem integerOf_value (c : Percent.Conversion) (v : Value) :
    Percent.integerOf c (ρ.value v) = Percent.integerOf c v := by
  unfold Percent.integerOf Percent.wrongNumber
  rw [ρ.integer?_value, ρ.kindName_value]
  cases v <;> rfl

omit hc in
theorem realOf_value (v : Value) : Percent.realOf (ρ.value v) = Percent.realOf v := by
  unfold Percent.realOf
  rw [ρ.number?_value, ρ.kindName_value]

theorem convert_value (c : Percent.Conversion) (index : Nat) (v : Value) :
    Percent.convert h' c index (ρ.value v) = Percent.convert h c index v := by
  unfold Percent.convert
  simp only [hc.text_value, hc.written_value, oneCharacter_value, integerOf_value, realOf_value]

theorem conversion (total : Nat) :
    ρ.Fills id (Percent.conversion h total) (Percent.conversion h' total) := by
  refine bind (takeNamed hc) fun _ => get fun cs => ?_
  refine bind (set _) fun _ => bind (size _ _) fun width => bind readPrecision fun precision => ?_
  refine bind skipLength fun _ => bind readType fun type => bind nextArgument fun v => ?_
  refine get fun cs => ?_
  dsimp only
  rw [convert_value hc]
  exact lift _

theorem fillFrom (total fuel : Nat) :
    ρ.Fills id (Percent.fillFrom h total fuel) (Percent.fillFrom h' total fuel) := by
  induction fuel with
  | zero => exact pure
  | succ fuel ih =>
    unfold Percent.fillFrom
    refine get fun cs => ?_
    split
    · exact pure
    · exact bind (set _) fun _ => bind ih fun _ => pure
    · exact bind (set _) fun _ => bind (conversion hc total) fun _ => bind ih fun _ => pure
    · exact bind (set _) fun _ => bind ih fun _ => pure

end Heaps

end Fills

theorem supply_ofArguments (v : Value) :
    Percent.Supply.ofArguments (ρ.value v) = ρ.supply (.ofArguments v) := by
  cases v with
  | tuple items =>
    rw [ρ.value_tuple]
    rfl
  | _ => rfl

theorem Carries.fill_value {ρ : Renaming} {h h' : Heap} (hc : ρ.Carries h h') (format : String)
    (v : Value) : Percent.fill h' format (ρ.value v) = Percent.fill h format v := by
  have hfill := Fills.fillFrom hc format.toList.length (format.toList.length + 1) format.toList
    (.ofArguments v)
  unfold Percent.fill
  dsimp only
  rw [supply_ofArguments, hfill, ρ.mayRemain_value]
  cases ((Percent.fillFrom h format.toList.length (format.toList.length + 1)).run
    format.toList).run (.ofArguments v) with
  | error f => rfl
  | ok filled =>
    change (if (!(filled.2.rest.map ρ.value).isEmpty && _) = true then _ else _) = _
    rw [List.isEmpty_map]
    rfl

end Renaming

end Stencil
