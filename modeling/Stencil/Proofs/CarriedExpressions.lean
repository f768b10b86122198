import Stencil.Proofs.CarriedMethods

/-!
# Expressions in renamed heaps

Evaluated in a renamed scope, an expression delivers the renamed value. What is shown of one step
of evaluation, given that its parts are carried over, is true of the evaluator of templates by
induction on its bound.
-/

namespace Stencil

namespace Renaming

variable {ρ : Renaming} {ev : Evaluator}

namespace Scope

variable (s : Scope) (name : String)

theorem localValue_carried :
    ρ.Carried ρ.value (s.localValue name) ((ρ.scope s).localValue name) := by
  have hfind : (ρ.scope s).locals.findIdx? (·.bound.contains name) =
      s.locals.findIdx? (·.bound.contains name) := List.findIdx?_map
  unfold Scope.localValue
  rw [hfind]
  cases s.locals.findIdx? (·.bound.contains name) with
  | none => exact .fault _
  | some i =>
    have hframe : ((ρ.scope s).locals[i]?).elim (ρ.scope s).frame (·.frame) =
        ρ.frame ((s.locals[i]?).elim s.frame (·.frame)) := by
      change ((s.locals.map ρ.localScope)[i]?).elim (ρ.frame s.frame) (·.frame) = _
      rw [List.getElem?_map]
      cases s.locals[i]? <;> rfl
    dsimp only
    rw [hframe]
    refine Carried.lookup _ (.own name) ?_
    unfold Scope.unassigned
    split
    · exact .inr rfl
    · exact .inl rfl

theorem dataValue_carried :
    ρ.Carried ρ.value (s.dataValue name) ((ρ.scope s).dataValue name) := by
  refine .bind (.data s.data) fun d => ?_
  have hnames : (ρ.renderData d).names.get? name = (d.names.get? name).map ρ.value :=
    ρ.bindings_get? d.names name
  have hkeys : (ρ.renderData d).names.keys = d.names.keys := ρ.bindings_keys d.names
  rw [hnames, hkeys]
  cases d.names.get? name with
  | some v => exact .pure
  | none =>
    change ρ.Carried ρ.value _ (if s.lenient then Pure.pure Value.undefined else _)
    dsimp only
    split
    · exact .pure
    · have hother : (ρ.renderData d).otherKeys.findSome? Stencil.Builtins.lengthFault? =
          d.otherKeys.findSome? Stencil.Builtins.lengthFault? := by
        change (d.otherKeys.map ρ.value).findSome? _ = _
        rw [List.findSome?_map]
        exact congrArg (d.otherKeys.findSome? ·) (funext ρ.lengthFault?_value)
      rw [hother]
      cases d.otherKeys.findSome? Stencil.Builtins.lengthFault? with
      | none => exact .throw _
      | some f => exact .fault _

theorem loopOf?_scope :
    (ρ.scope s).loopOf? name = (s.loopOf? name).map (ρ.loopScope s.frame) := List.find?_map ..

theorem lookup_carried : ρ.Carried ρ.value (s.lookup name) ((ρ.scope s).lookup name) := by
  have hlocal : (ρ.scope s).locals.any (·.active.contains name) =
      s.locals.any (·.active.contains name) := List.any_map
  have hempty : (ρ.scope s).locals.isEmpty = s.locals.isEmpty := List.isEmpty_map
  unfold Scope.lookup
  rw [hlocal, loopOf?_scope, hempty]
  split
  · exact localValue_carried s name
  · cases s.loopOf? name with
    | none => exact dataValue_carried s name
    | some l =>
      refine Carried.lookup s.frame (.ofLoop l.position name) ?_
      unfold Scope.unassigned
      split
      · exact .inr rfl
      · exact .inl rfl

end Scope

namespace Comprehension

variable (c : Comprehension)

theorem scopeAfter_comprehension (n : Nat) :
    (ρ.comprehension c).scopeAfter n = ρ.scope (c.scopeAfter n) := by
  unfold Comprehension.scopeAfter comprehension scope
  cases h : c.scope.locals with
  | nil =>
    dsimp only
    rw [h]
    rfl
  | cons l rest => rfl

theorem fullScope_comprehension :
    (ρ.comprehension c).fullScope = ρ.scope c.fullScope := scopeAfter_comprehension c _

theorem frame_comprehension : (ρ.comprehension c).frame = ρ.frame c.frame := by
  unfold Comprehension.frame comprehension scope
  cases c.scope.locals <;> rfl

variable (hev : ρ.Evaluates ev)

include hev

theorem conditionsHold_carried (s : Scope) (es : List Expr) : ρ.Carried id
    (Comprehension.conditionsHold ev s es) (Comprehension.conditionsHold ev (ρ.scope s) es) := by
  induction es with
  | nil => exact .pure (a := true)
  | cons e es ih =>
    refine .bind (hev.eval s e) fun v => .get fun h h' hc => ?_
    rw [hc.truth_value]
    split
    · exact ih
    · exact .pure (a := false)

theorem advance_carried (fuel : Nat) : ρ.Carried (Option.map ρ.comprehension)
    (Comprehension.advance ev fuel c) (Comprehension.advance ev fuel (ρ.comprehension c)) := by
  induction fuel generalizing c with
  | zero => exact .throw _
  | succ fuel ih =>
    unfold Comprehension.advance
    have hclauses : (ρ.comprehension c).clauses = c.clauses := rfl
    have hcarried : (ρ.comprehension c).iterators = c.iterators.map ρ.value := rfl
    rw [hcarried, hclauses]
    cases hiterators : c.iterators with
    | nil => exact .pure
    | cons it outer =>
      rw [List.map_cons]
      dsimp only
      rw [List.length_map, frame_comprehension]
      cases c.clauses[outer.length]? with
      | none => exact .pure
      | some clause =>
        refine .bind (hev.next it) fun item => ?_
        cases item with
        | none => exact ih { c with iterators := outer }
        | some v =>
          dsimp only [Option.map_some]
          rw [scopeAfter_comprehension]
          refine .bind (hev.assign _ (fun name w => .bindVariable c.frame (.own name) w) _ _)
            fun _ => ?_
          refine .bind (conditionsHold_carried hev _ _) fun holds => ?_
          cases holds with
          | false => exact ih c
          | true =>
            cases c.clauses[outer.length + 1]? with
            | none => exact .pure
            | some inner =>
              refine .bind (hev.eval _ _) fun source => ?_
              refine .bind (toIterator_carried source) fun it' => ?_
              exact ih { c with iterators := it' :: it :: outer }

omit hev in
theorem start_carried (s : Scope) (title : String) (product : Product)
    (clauses : List (Clause Expr)) (source : Value) : ρ.Carried ρ.comprehension
      (Comprehension.start s title product clauses source)
      (Comprehension.start (ρ.scope s) title product clauses (ρ.value source)) :=
  .bind (.newFrame []) fun _ => .bind (toIterator_carried source) fun _ => .pure

theorem run_carried {σ τ : Type} {f : σ → τ} {step : σ → Scope → Eval σ}
    {step' : τ → Scope → Eval τ}
    (hstep : ∀ a s, ρ.Carried f (step a s) (step' (f a) (ρ.scope s))) (fuel : Nat) {a : σ} {b : τ}
    (hb : b = f a) : ρ.Carried f (Comprehension.run ev step fuel a c)
      (Comprehension.run ev step' fuel b (ρ.comprehension c)) := by
  subst hb
  induction fuel generalizing a c with
  | zero => exact .throw _
  | succ fuel ih =>
    refine .bind (advance_carried c hev _) fun next => ?_
    cases next with
    | none => exact .pure
    | some c =>
      dsimp only [Option.map_some]
      rw [fullScope_comprehension]
      exact .bind (hstep a c.fullScope) fun a => ih c

end Comprehension

namespace Evaluates

variable (hev : ρ.Evaluates ev) (s : Scope)

include hev

theorem compareWith (op : CompareOp) (a b : Value) : ρ.Carried id (ev.compareWith op a b)
    (ev.compareWith op (ρ.value a) (ρ.value b)) := by
  have hidentical := ρ.identical_value a b
  unfold Evaluator.compareWith
  refine .get fun h h' hc => ?_
  rw [hc.equal_value]
  simp only [hc.order_value, hidentical]
  cases op with
  | equal => exact .ofSame rfl
  | unequal => exact .bind (.ofSame rfl) fun same => .pure
  | less => exact .ofSame rfl
  | lessEqual => exact .ofSame rfl
  | greater => exact .ofSame rfl
  | greaterEqual => exact .ofSame rfl
  | identical => exact .pure (a := Value.identical a b)
  | distinct => exact .pure (a := !Value.identical a b)
  | member => exact hev.isIn a b
  | notMember => exact .bind (hev.isIn a b) fun found => .pure

theorem comparison (a : Value) (rest : List (CompareOp × Expr)) :
    ρ.Carried ρ.value (ev.comparison s a rest) (ev.comparison (ρ.scope s) (ρ.value a) rest) := by
  induction rest generalizing a with
  | nil => exact .pure
  | cons first rest ih =>
    refine .bind (hev.eval s first.2) fun b => .bind (hev.compareWith first.1 a b) fun holds => ?_
    dsimp only [id]
    split
    · split
      · exact .pure
      · exact ih b
    · exact .pure

theorem boolean (any : Bool) (es : List Expr) :
    ρ.Carried ρ.value (ev.boolean s any es) (ev.boolean (ρ.scope s) any es) := by
  match es with
  | [] => exact .pure
  | [e] => exact hev.eval s e
  | e :: e' :: es =>
    refine .bind (hev.eval s e) fun v => .get fun h h' hc => ?_
    rw [hc.truth_value]
    split
    · exact .pure
    · exact boolean any (e' :: es)

theorem fragment (f : Fragment Expr) :
    ρ.Carried id (ev.fragment s f) (ev.fragment (ρ.scope s) f) := by
  cases f with
  | text t => exact .pure (a := t)
  | field e conversion format =>
    refine .bind (hev.eval s e) fun v => .bind (converted_carried conversion v) fun v => ?_
    have hformatted (spec : String) : ρ.Carried id
        (do Eval.ofExcept (v.formatted (← get) spec))
        (do Eval.ofExcept ((ρ.value v).formatted (← get) spec)) := by
      refine .get fun h h' hc => ?_
      rw [hc.formatted_value]
      exact .ofSame rfl
    cases format with
    | none => exact hformatted ""
    | some f =>
      refine .bind (.map (hev.eval s f) fun v => ?_) hformatted
      cases v <;> rfl

theorem spread (v : Value) {wrong : Value → Fault} (hwrong : ∀ v, wrong (ρ.value v) = wrong v) :
    ρ.Carried (Array.map ρ.value) (ev.spread v wrong) (ev.spread (ρ.value v) wrong) := by
  refine .bind (toIterator?_carried v) fun it => ?_
  cases it with
  | some it => exact hev.drain it
  | none => exact .faultOf (hwrong v)

theorem values {wrong : Value → Fault} (hwrong : ∀ v, wrong (ρ.value v) = wrong v)
    (es : List Expr) : ρ.Carried (Array.map ρ.value) (ev.values s wrong es)
      (ev.values (ρ.scope s) wrong es) := by
  induction es with
  | nil => exact .deliver Array.map_empty.symm
  | cons e es ih =>
    have hrest (first : Array Value) : ρ.Carried (Array.map ρ.value)
        (do return first ++ (← ev.values s wrong es))
        (do return first.map ρ.value ++ (← ev.values (ρ.scope s) wrong es)) :=
      .bind ih fun rest => .deliver Array.map_append.symm
    unfold Evaluator.values
    cases Evaluator.starOperand e with
    | some operand =>
      exact .bind (hev.eval s operand) fun v => .bind (hev.spread v hwrong) hrest
    | none =>
      refine .bind (hev.eval s e) fun v => .bind (f := Array.map ρ.value) (.deliver ?_) hrest
      rw [List.map_toArray]
      rfl

theorem addEach (items : List Value) (es : List Expr) : ρ.Carried (List.map ρ.value)
    (ev.addEach s items es) (ev.addEach (ρ.scope s) (items.map ρ.value) es) := by
  have hwrong (v : Value) : (ρ.value v).notIterable = v.notIterable := by
    unfold Value.notIterable
    rw [ρ.kindName_value]
  induction es generalizing items with
  | nil => exact .pure
  | cons e es ih =>
    refine .bind (hev.values s hwrong [e]) fun vs => ?_
    rw [Array.toList_map]
    exact .bind (addAll_carried items vs.toList) fun items => ih items

omit hev in
theorem spreadFault_value (v : Value) :
    Evaluator.spreadFault (ρ.value v) = Evaluator.spreadFault v := by
  unfold Evaluator.spreadFault
  rw [ρ.kindName_value]

theorem display (kind : Display) (items : List Expr) :
    ρ.Carried ρ.value (ev.display s kind items) (ev.display (ρ.scope s) kind items) := by
  unfold Evaluator.display
  cases kind with
  | tuple =>
    refine .bind (hev.values s spreadFault_value items) fun vs => .deliver ?_
    rw [value_tuple, Array.toList_map]
  | list => exact .bind (hev.values s spreadFault_value items) fun vs => .newList vs
  | set =>
    refine .bind (hev.values s spreadFault_value _) fun vs => ?_
    rw [Array.toList_map]
    refine .bind (addAll_carried [] vs.toList) fun front => ?_
    refine .bind (hev.addEach s front _) fun all => ?_
    dsimp only
    rw [ρ.arrangeConstants_values, ρ.arrange_values]
    split
    · rw [← List.map_toArray]
      exact .newSet _
    · rw [← List.map_toArray]
      exact .newSet _

theorem pairsBefore (items : List (Option Expr × Expr)) :
    ρ.Carried (Prod.map (List.map ρ.entry) id) (ev.pairsBefore s items)
      (ev.pairsBefore (ρ.scope s) items) := by
  induction items with
  | nil => exact .pure (f := Prod.map (List.map ρ.entry) id) (a := ([], []))
  | cons item items ih =>
    obtain ⟨key, e⟩ := item
    cases key with
    | none =>
      exact .pure (f := Prod.map (List.map ρ.entry) id) (a := ([], (none, e) :: items))
    | some k =>
      refine .bind (hev.eval s k) fun key => .bind (hev.eval s e) fun v => ?_
      exact .bind ih fun rest => .pure (f := Prod.map (List.map ρ.entry) id)
        (a := ((key, v) :: rest.1, rest.2))

theorem dictEntries (fuel : Nat) {entries entries' : Array (Value × Value)}
    (hentries : entries' = entries.map ρ.entry) (items : List (Option Expr × Expr)) :
    ρ.Carried (Array.map ρ.entry) (ev.dictEntries s fuel entries items)
      (ev.dictEntries (ρ.scope s) fuel entries' items) := by
  subst hentries
  induction fuel generalizing entries items with
  | zero => exact .pure
  | succ fuel ih =>
    refine .bind (hev.pairsBefore s items) fun found => ?_
    obtain ⟨pairs, rest⟩ := found
    refine .bind (putAll_carried entries pairs) fun entries => ?_
    cases rest with
    | nil => exact .pure
    | cons item rest =>
      refine .bind (hev.eval s item.2) fun v => .bind (entriesOf?_carried v) fun more => ?_
      cases more with
      | none =>
        refine .faultOf ?_
        unfold Evaluator.noMapping
        rw [ρ.kindName_value]
      | some more =>
        dsimp only [Option.map_some]
        rw [Array.toList_map]
        exact .bind (putAll_carried entries more.toList) fun entries => ih rest

omit hev in
theorem argumentFault_value (title star wanted : String) (v : Value) :
    Evaluator.argumentFault title star wanted (ρ.value v) =
      Evaluator.argumentFault title star wanted v := by
  unfold Evaluator.argumentFault
  rw [ρ.kindName_value]

theorem positional (title : String) (arguments : List Expr) :
    ρ.Carried (Array.map ρ.value) (ev.positional s title arguments)
      (ev.positional (ρ.scope s) title arguments) := by
  unfold Evaluator.positional
  split
  · exact .bind (hev.eval s _) fun v => hev.spread v (argumentFault_value title _ _)
  · exact hev.values s spreadFault_value arguments

omit hev in
theorem mergeKeywords_value (title : String) (bound : Bindings) (entries : List (Value × Value)) :
    Evaluator.mergeKeywords title (ρ.bindings bound) (entries.map ρ.entry) =
      (Evaluator.mergeKeywords title bound entries).map ρ.bindings := by
  refine List.foldlM_eq_map (fun bound e => ?_) entries bound
  obtain ⟨k, v⟩ := e
  cases k with
  | str key =>
    change (if ((ρ.bindings bound).get? key).isSome then _ else _) = _
    rw [Closure.isSome_get?]
    dsimp only
    split
    · rfl
    · exact congrArg Except.ok (ρ.bindings_append bound [(key, v)]).symm
  | _ => rfl

theorem keywordArguments (title : String) (bound : Bindings)
    (keywords : List (Option String × Expr)) :
    ρ.Carried ρ.bindings (ev.keywordArguments s title bound keywords)
      (ev.keywordArguments (ρ.scope s) title (ρ.bindings bound) keywords) := by
  induction keywords generalizing bound with
  | nil => exact .pure
  | cons keyword keywords ih =>
    obtain ⟨key, e⟩ := keyword
    cases key with
    | some key =>
      refine .bind (hev.eval s e) fun v => ?_
      exact .bind (.ofExcept (mergeKeywords_value title bound [(.str key, v)])) ih
    | none =>
      refine .bind (hev.eval s e) fun v => .bind (entriesOf?_carried v) fun entries => ?_
      cases entries with
      | some entries =>
        dsimp only [Option.map_some]
        rw [Array.toList_map]
        exact .bind (.ofExcept (mergeKeywords_value title bound _)) ih
      | none => exact .faultOf (argumentFault_value ..)

theorem function (parameters : Parameters Expr) (body : Expr) : ρ.Carried ρ.value
    (ev.function s parameters body) (ev.function (ρ.scope s) parameters body) := by
  refine .bind (.mapM_same (hev.eval s) parameters.defaults) fun defaults => ?_
  refine .bind (.filterMapM_same (f := ρ.binding) (fun e => ?_) parameters.keywordOnly)
    fun keywordDefaults => ?_
  · obtain ⟨p, d⟩ := e
    cases d with
    | some e => exact .bind (hev.eval s e) fun v => .pure
    | none => exact .pure
  · exact .bind (.allocate (.function ⟨parameters, body, s, defaults, keywordDefaults, _⟩))
      fun r => .pure

theorem sourceOf (clauses : List (Clause Expr)) :
    ρ.Carried ρ.value (ev.sourceOf s clauses) (ev.sourceOf (ρ.scope s) clauses) := by
  cases clauses with
  | nil => exact .deliver (ρ.value_tuple []).symm
  | cons c clauses =>
    refine .bind (hev.eval s c.source) fun v => ?_
    split
    · refine .faultOf ?_
      unfold Evaluator.notAsynchronous
      rw [ρ.kindName_value]
    · exact .pure

theorem collected (kind : Collector) (element : Expr) (clauses : List (Clause Expr)) :
    ρ.Carried ρ.value (ev.collected s kind element clauses)
      (ev.collected (ρ.scope s) kind element clauses) := by
  refine .bind (hev.sourceOf s clauses) fun source => ?_
  refine .bind (Comprehension.start_carried s _ _ _ source) fun c => ?_
  cases kind with
  | list =>
    refine .bind (.nested 1 (Comprehension.run_carried c hev (fun items scope => ?_) _
      Array.map_empty.symm)) fun items => .newList items
    exact .bind (hev.eval scope element) fun v => .deliver Array.map_push.symm
  | set =>
    refine .nested 1 (.bind (Comprehension.run_carried (f := List.map ρ.value) c hev
      (fun items scope => ?_) _ rfl) fun items => ?_)
    · refine .bind (hev.eval scope element) fun v => .get fun h h' hc => ?_
      exact .ofExcept (hc.addItem_value items v)
    · rw [ρ.arrange_values, ← List.map_toArray]
      exact .newSet _
  | generator => exact .newIterator _ (.comprehension c)

theorem collectedDict (key value : Expr) (clauses : List (Clause Expr)) :
    ρ.Carried ρ.value (ev.collectedDict s key value clauses)
      (ev.collectedDict (ρ.scope s) key value clauses) := by
  refine .bind (hev.sourceOf s clauses) fun source => ?_
  refine .bind (Comprehension.start_carried s _ _ _ source) fun c => ?_
  refine .nested 1 (.bind (Comprehension.run_carried c hev (fun entries scope => ?_) _
    Array.map_empty.symm) fun entries => .newDict entries)
  refine .bind (hev.eval scope key) fun k => .bind (hev.eval scope value) fun v => ?_
  exact .get fun h h' hc => .ofExcept (hc.putEntry_value entries k v)

theorem produced (product : Product) :
    ρ.Carried ρ.value (ev.produced s product) (ev.produced (ρ.scope s) product) := by
  cases product with
  | element e => exact hev.eval s e
  | pair k v =>
    exact .bind (hev.eval s k) fun k => .bind (hev.eval s v) fun v =>
      .deliver (ρ.value_tuple [k, v]).symm

theorem zipped (strict : Bool) (i : Nat) (its : List Value) :
    ρ.Carried (Option.map (List.map ρ.value)) (ev.zipped strict i its)
      (ev.zipped strict i (its.map ρ.value)) := by
  induction its generalizing i with
  | nil => exact .pure
  | cons it rest ih =>
    refine .bind (hev.next it) fun item => ?_
    cases item with
    | some v =>
      refine .bind (ih (i + 1)) fun vs => ?_
      cases vs <;> exact .pure
    | none =>
      dsimp only [Option.map_none]
      split
      · exact .pure
      · split
        · exact .fault _
        · have hlonger : ρ.Carried (Option.map (Prod.map ρ.value id))
              (rest.zipIdx.findM? fun e => do return (← ev.next e.1).isSome)
              ((rest.zipIdx.map (Prod.map ρ.value id)).findM? fun e => do
                return (← ev.next e.1).isSome) := by
            refine .findM? (fun e => ?_) _
            exact .bind (hev.next e.1) fun item => .deliver Option.isSome_map
          rw [List.zipIdx_map]
          refine .bind hlonger fun longer => ?_
          cases longer with
          | some e => exact .fault _
          | none => exact .pure

theorem nextRound (c : Comprehension) :
    ρ.Carried (Option.map (Prod.map ρ.value ρ.comprehension)) (ev.nextRound c)
      (ev.nextRound (ρ.comprehension c)) := by
  refine .tryCatch (.nested 1 (.bind (Comprehension.advance_carried c hev _) fun next => ?_))
    (fun halt => ?_) fun fault hfault => ?_
  · cases next with
    | none => exact .pure
    | some c =>
      dsimp only [Option.map_some]
      rw [Comprehension.fullScope_comprehension]
      exact .bind (hev.produced c.fullScope c.product) fun v => .pure
  · cases halt with
    | fault f => exact .fault _
    | undefinedName name available => exact .throw _
    | outOfSteps => exact .throw _
  · unfold Evaluator.insideGenerator
    rcases hfault with hkind | hkind <;> simp [hkind]

omit hev in
theorem viewItem_entry (kind : ViewKind) (e : Value × Value) :
    Evaluator.viewItem kind (ρ.entry e) = ρ.value (Evaluator.viewItem kind e) := by
  cases kind with
  | keys => rfl
  | values => rfl
  | items => exact (ρ.value_tuple [e.1, e.2]).symm

theorem step (c : Cursor) :
    ρ.Carried (Option.map (Prod.map ρ.value ρ.cursor)) (ev.step c) (ev.step (ρ.cursor c)) := by
  cases c with
  | done => exact .pure
  | list r i =>
    refine .get fun h h' hc => ?_
    rw [hc.listItems, Array.getElem?_map]
    cases (h.listItems r)[i]? <;> exact .pure
  | listBackward r remaining =>
    cases remaining with
    | zero => exact .pure
    | succ n =>
      refine .get fun h h' hc => ?_
      rw [hc.listItems, Array.getElem?_map]
      cases (h.listItems r)[n]? <;> exact .pure
  | items rest =>
    cases rest with
    | nil => exact .pure
    | cons v rest => exact .pure
  | set r i size =>
    refine .get fun h h' hc => ?_
    rw [hc.setItems]
    dsimp only
    rw [Array.size_map, Array.getElem?_map]
    split
    · exact .failed _
    · cases (h.setItems r)[i]? <;> exact .pure
  | dict kind r i size =>
    refine .get fun h h' hc => ?_
    rw [hc.dictEntries]
    dsimp only
    rw [Array.size_map, Array.getElem?_map]
    split
    · exact .failed _
    · cases (h.dictEntries r)[i]? with
      | none => exact .pure
      | some e => exact .deliver (congrArg (fun v => some (v, _)) (viewItem_entry kind e))
  | dictBackward kind r remaining size =>
    refine .get fun h h' hc => ?_
    rw [hc.dictEntries]
    dsimp only
    rw [Array.size_map]
    split
    · exact .failed _
    · cases remaining with
      | zero => exact .pure
      | succ n =>
        dsimp only
        rw [Array.getElem?_map]
        cases (h.dictEntries r)[n]? with
        | none => exact .pure
        | some e => exact .deliver (congrArg (fun v => some (v, _)) (viewItem_entry kind e))
  | range n step remaining => cases remaining <;> exact .pure
  | enumerate inner i =>
    refine .bind (hev.next inner) fun item => ?_
    cases item with
    | none => exact .pure
    | some v => exact .deliver (congrArg (fun v => some (v, _)) (ρ.value_tuple [.int i, v]).symm)
  | zip inner strict =>
    cases inner with
    | nil => exact .pure
    | cons it rest =>
      refine .bind (hev.zipped strict 0 (it :: rest)) fun vs => ?_
      cases vs with
      | none => exact .pure
      | some vs => exact .deliver (congrArg (fun v => some (v, _)) (ρ.value_tuple vs).symm)
  | subscripts v i =>
    refine .tryCatch (.bind (subscript_carried v (.int i)) fun w => .pure) (fun halt => ?_)
      fun fault hfault => ?_
    · cases halt with
      | fault f =>
        dsimp only
        split
        · exact .pure
        · exact .fault _
      | undefinedName name available => exact .throw _
      | outOfSteps => exact .throw _
    · rcases hfault with hkind | hkind <;> simp [hkind]
  | comprehension c =>
    refine .bind (hev.nextRound c) fun round => ?_
    cases round <;> exact .pure
  | loop r i =>
    refine .bind (passOf_carried r i) fun v => ?_
    cases v <;> exact .pure

theorem nextItem (it : Value) :
    ρ.Carried (Option.map ρ.value) (ev.nextItem it) (ev.nextItem (ρ.value it)) := by
  cases it with
  | iterator kind r =>
    refine .get fun h h' hc => ?_
    have hasks : Evaluator.asksAgain (ρ.cursor (h.cursor r)) =
        Evaluator.asksAgain (h.cursor r) := by
      cases h.cursor r <;> rfl
    dsimp only
    rw [hc.cursor, hasks]
    refine .bind (hev.step (h.cursor r)) fun found => ?_
    cases found with
    | some e => exact .bind (.write r (.iterator e.2)) fun _ => .pure
    | none =>
      dsimp only [Option.map_none]
      split
      · exact .bind (.write r (.iterator .done)) fun _ => .pure
      · exact .pure
  | _ => exact .pure

theorem evalOption (e : Option Expr) :
    ρ.Carried ρ.value (ev.evalOption s e) (ev.evalOption (ρ.scope s) e) := by
  cases e with
  | some e => exact hev.eval s e
  | none => exact .pure

theorem expression (e : Expr) :
    ρ.Carried ρ.value (ev.expression s e) (ev.expression (ρ.scope s) e) := by
  cases e with
  | literal l => exact .deliver (by cases l <;> rfl)
  | name id => exact Scope.lookup_carried s id
  | interpolated fragments =>
    refine .bind (.mapM_same (f := id) (hev.fragment s) fragments) fun texts => .deliver ?_
    rw [List.map_id]
    rfl
  | display kind items => exact hev.display s kind items
  | dict entries =>
    exact .bind (hev.dictEntries s _ Array.map_empty.symm entries) fun entries => .newDict entries
  | starred e => exact hev.eval s e
  | unary op e => exact .bind (hev.eval s e) fun v => operateUnary_carried op v
  | binary op a b =>
    exact .bind (hev.eval s a) fun v => .bind (hev.eval s b) fun w => operate_carried op v w
  | boolean any operands => exact hev.boolean s any operands
  | compare first rest => exact .bind (hev.eval s first) fun v => hev.comparison s v rest
  | conditional test yes no =>
    refine .bind (hev.eval s test) fun t => .get fun h h' hc => ?_
    rw [hc.truth_value]
    split
    · exact hev.eval s yes
    · exact hev.eval s no
  | «attribute» e label =>
    refine .bind (hev.eval s e) fun v => ?_
    change ρ.Carried _ _ (if s.lenient then _ else _)
    split
    · exact memberLenient_carried v label
    · exact member_carried v label
  | subscript e index =>
    exact .bind (hev.eval s e) fun v => .bind (hev.eval s index) fun i => subscript_carried v i
  | slice start stop step =>
    exact .bind (hev.evalOption s start) fun a => .bind (hev.evalOption s stop) fun b =>
      .bind (hev.evalOption s step) fun c => .pure
  | call f arguments keywords =>
    refine .bind (hev.eval s f) fun f => .get fun h h' hc => ?_
    rw [hc.functionTitle_value]
    refine .bind (hev.positional s _ arguments) fun args => ?_
    rw [Array.toList_map]
    exact .bind (hev.keywordArguments s _ [] keywords) fun named =>
      hev.call f args.toList named
  | lambda parameters body => exact hev.function s parameters body
  | collect kind element clauses => exact hev.collected s kind element clauses
  | collectDict key value clauses => exact hev.collectedDict s key value clauses
  | assignment target e => exact hev.eval s e
  | await e => exact hev.eval s e
  | yielded e => exact hev.evalOption s e
  | yieldedFrom e => exact hev.eval s e

end Evaluates

theorem run_evaluates (ρ : Renaming) (n : Nat) : ρ.Evaluates (Evaluator.run n) := by
  induction n with
  | zero => exact ⟨fun _ _ => .throw _, fun _ _ _ => .throw _, fun _ => .throw _⟩
  | succ n ih =>
    exact ⟨fun s e => ih.expression s e, fun f args keywords => callValue_carried ih f args keywords,
      ih.nextItem⟩

theorem standard_evaluates (ρ : Renaming) : ρ.Evaluates .standard := ρ.run_evaluates _

end Renaming

end Stencil
