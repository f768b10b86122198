import Stencil.Proofs.TwinScopes

/-!
# Twins of expressions

Evaluation by a rule for names is the evaluation of templates with that rule in the place of the
lookup. Where two rules for names and the two ways to look up attributes do alike as far as the
leeway says, so does all of evaluation: one nested step keeps evaluators paired, and evaluation
with a bound on its steps is that step taken again and again.
-/

namespace Stencil

variable {l : Leeway} {frames : Array Frame} {tracked : Bool}

namespace Evaluator

def expressionBy (look : Scope → String → Eval Value) (ev : Evaluator) (s : Scope) :
    Expr → Eval Value
  | .name id => look s id
  | e => ev.expression s e

/-- Evaluation with at most `n` steps inside one another, where names mean what `look` says. -/
def runBy (look : Scope → String → Eval Value) : Nat → Evaluator
  | 0 => exhausted
  | n + 1 => {
      eval := fun s e => (runBy look n).expressionBy look s e
      call := fun f args keywords => (runBy look n).callValue f args keywords
      next := fun it => (runBy look n).nextItem it }

theorem expressionBy_lookup (ev : Evaluator) (s : Scope) (e : Expr) :
    ev.expressionBy Scope.lookup s e = ev.expression s e := by
  cases e <;> rfl

theorem runBy_lookup (n : Nat) : runBy Scope.lookup n = run n := by
  induction n with
  | zero => rfl
  | succ n ih =>
    unfold runBy run
    rw [ih]
    simp only [expressionBy_lookup]

end Evaluator

/-- What two rules for names and the ways to look up attributes must keep to. -/
structure Leeway.Meets (l : Leeway) (look look' : Scope → String → Eval Value) : Prop where
  name : ∀ {tracked frames s s' id}, s.Twin l s' → l.Fits tracked frames s (.name id) →
    Twin l Same frames (look s id) (look' s' id)
  member : ∀ {frames mode mode'} v label, l.modes mode mode' →
    Twin l Same frames (if mode then Value.memberLenient v label else Value.member v label)
      (if mode' then Value.memberLenient v label else Value.member v label)

namespace Evaluator

variable {ev ev' : Evaluator} (hev : ev.Paired l ev')

include hev

section InScope

variable {s s' : Scope} (hs : s.Twin l s')

theorem compareWith_twin (op : CompareOp) (a b : Value) :
    Twin l Same frames (ev.compareWith op a b) (ev'.compareWith op a b) := by
  unfold compareWith
  refine .get (fun h h' l => ?_) fun h => ?_
  · simp only [l.equal, l.order]
  · split
    · exact .ofExcept _
    · exact .bind (.ofExcept _) fun _ _ _ => .pure _
    · exact .ofExcept _
    · exact .ofExcept _
    · exact .ofExcept _
    · exact .ofExcept _
    · exact .pure _
    · exact .pure _
    · exact isIn_twin hev a b
    · exact .bind (isIn_twin hev a b) fun _ _ _ => .pure _

include hs

theorem comparison_twin (a : Value) (rest : List (CompareOp × Expr))
    (hf : ∀ e ∈ rest.map (·.2), l.Fits tracked frames s e) :
    Twin l Same frames (ev.comparison s a rest) (ev'.comparison s' a rest) := by
  induction rest generalizing a frames with
  | nil => exact .pure _
  | cons first rest ih =>
    obtain ⟨op, e⟩ := first
    refine .bind (hev.eval hs (hf e List.mem_cons_self)) fun _ b hg => ?_
    refine .bind (compareWith_twin hev op a b) fun _ holds hg' => ?_
    split
    · split
      · exact .pure _
      · exact ih b fun e he => (hf e (List.mem_cons_of_mem _ he)).mono (hg.trans hg')
    · exact .pure _

theorem boolean_twin (any : Bool) (es : List Expr) (hf : ∀ e ∈ es, l.Fits tracked frames s e) :
    Twin l Same frames (ev.boolean s any es) (ev'.boolean s' any es) := by
  induction es generalizing frames with
  | nil => exact .pure _
  | cons e es ih =>
    cases es with
    | nil => exact hev.eval hs (hf e List.mem_cons_self)
    | cons e' es =>
      refine .bind (hev.eval hs (hf e List.mem_cons_self)) fun _ v hg => ?_
      refine .get (fun h h' l => ?_) fun h => ?_
      · rw [l.truth]
      · split
        · exact .pure v
        · exact ih fun f hf' => (hf f (List.mem_cons_of_mem _ hf')).mono hg

theorem fragment_twin {fragments : List (Fragment Expr)} {f : Fragment Expr}
    (hmem : f ∈ fragments) (hf : l.Fits tracked frames s (.interpolated fragments)) :
    Twin l Same frames (ev.fragment s f) (ev'.fragment s' f) := by
  cases f with
  | text t => exact .pure t
  | field e conversion format =>
    have hparts : ∀ e' ∈ e :: format.toList, l.Fits tracked frames s e' := fun e' he' =>
      hf.part (List.mem_flatMap.mpr ⟨_, hmem, he'⟩)
    refine .bind (hev.eval hs (hparts e List.mem_cons_self)) fun _ v hg => ?_
    refine .bind (converted_plain conversion v).twin fun _ v hg' => ?_
    have hshow (frames : Array Frame) (spec : String) : Twin l Same frames
        (do Eval.ofExcept (v.formatted (← get) spec))
        (do Eval.ofExcept (v.formatted (← get) spec)) := by
      refine .get (fun h h' l => ?_) fun h => .ofExcept _
      rw [l.formatted]
    cases format with
    | none => exact .bind (.pure "") fun _ spec _ => hshow _ spec
    | some f =>
      have hformat := (hparts f (List.mem_cons_of_mem _ List.mem_cons_self)).mono (hg.trans hg')
      refine .bind (.bind (hev.eval hs hformat) fun _ w _ => .pure (textOf w)) fun _ spec _ => ?_
      exact hshow _ spec

omit hs in
theorem spread_twin (v : Value) (wrong : Value → Fault) :
    Twin l Same frames (ev.spread v wrong) (ev'.spread v wrong) := by
  refine .bind (toIterator?_plain v).twin fun _ it _ => ?_
  split
  · exact drain_twin hev _
  · exact .fault _

/-- What is spread is evaluated on behalf of its starred expression. -/
theorem values_twin (wrong : Value → Fault) (es : List Expr)
    (hf : ∀ e ∈ es, l.Fits tracked frames s e) :
    Twin l Same frames (ev.values s wrong es) (ev'.values s' wrong es) := by
  induction es generalizing frames with
  | nil => exact .pure _
  | cons e es ih =>
    have hfirst := hf e List.mem_cons_self
    have hrest (frames' : Array Frame) (hg : Grows frames frames') (first : Array Value) :
        Twin l Same frames' (do return first ++ (← ev.values s wrong es))
          (do return first ++ (← ev'.values s' wrong es)) :=
      .bind (ih fun f hf' => (hf f (List.mem_cons_of_mem _ hf')).mono hg) fun _ vs _ => .pure _
    unfold values
    dsimp only
    split
    · rename_i e' hstar
      have he : e = .starred e' := by
        unfold starOperand at hstar
        split at hstar
        · cases hstar
          rfl
        · cases hstar
      subst he
      refine .bind (hev.eval hs (hfirst.part List.mem_cons_self)) fun _ v hg => ?_
      exact .bind (spread_twin hev v wrong) fun _ vs hg' => hrest _ (hg.trans hg') vs
    · refine .bind (hev.eval hs hfirst) fun _ v hg => ?_
      exact .bind (.pure #[v]) fun _ vs hg' => hrest _ (hg.trans hg') vs

theorem addEach_twin (items : List Value) (es : List Expr)
    (hf : ∀ e ∈ es, l.Fits tracked frames s e) :
    Twin l Same frames (ev.addEach s items es) (ev'.addEach s' items es) := by
  induction es generalizing items frames with
  | nil => exact .pure _
  | cons e es ih =>
    have hfirst : ∀ f ∈ [e], l.Fits tracked frames s f := fun f hf' =>
      hf f (List.mem_singleton.mp hf' ▸ List.mem_cons_self)
    refine .bind (values_twin hev hs _ [e] hfirst) fun _ vs hg => ?_
    refine .bind (addAll_plain items vs.toList).twin fun _ items hg' => ih items fun f hf' => ?_
    exact (hf f (List.mem_cons_of_mem _ hf')).mono (hg.trans hg')

theorem display_twin (kind : Display) (items : List Expr)
    (hf : ∀ e ∈ items, l.Fits tracked frames s e) :
    Twin l Same frames (ev.display s kind items) (ev'.display s' kind items) := by
  cases kind with
  | tuple => exact .bind (values_twin hev hs _ items hf) fun _ vs _ => .pure _
  | list => exact .bind (values_twin hev hs _ items hf) fun _ vs _ => (Plain.newList vs).twin
  | set =>
    have hfront : ∀ e ∈ items.takeWhile fun e => (starOperand e).isNone,
        l.Fits tracked frames s e := fun e he => hf e ((List.takeWhile_sublist _).mem he)
    refine .bind (values_twin hev hs _ _ hfront) fun _ vs hg => ?_
    refine .bind (addAll_plain [] vs.toList).twin fun frames' front hg' => ?_
    have hrest : ∀ e ∈ items.drop (items.takeWhile fun e => (starOperand e).isNone).length,
        l.Fits tracked frames' s e := fun e he =>
      (hf e (List.mem_of_mem_drop he)).mono (hg.trans hg')
    exact .bind (addEach_twin hev hs front _ hrest) fun _ all _ => (Plain.newSet _).twin

theorem pairsBefore_twin (items : List (Option Expr × Expr))
    (hf : ∀ item ∈ items, ∀ e ∈ item.1.toList ++ [item.2], l.Fits tracked frames s e) :
    Twin l (Such fun _ r => ∀ item ∈ r.2, item ∈ items) frames (ev.pairsBefore s items)
      (ev'.pairsBefore s' items) := by
  induction items generalizing frames with
  | nil => exact .such fun _ _ _ h => h
  | cons item items ih =>
    obtain ⟨_ | k, e⟩ := item
    · exact .such fun _ _ _ h => h
    · have hitem := hf (some k, e) List.mem_cons_self
      refine .bind (hev.eval hs (hitem k List.mem_cons_self)) fun _ key hg => ?_
      have he := (hitem e (List.mem_cons_of_mem _ List.mem_cons_self)).mono hg
      refine .bind (hev.eval hs he) fun _ v hg' => ?_
      refine .bindSuch (ih fun item hitem e he => ?_) fun _ r _ hr => ?_
      · exact (hf item (List.mem_cons_of_mem _ hitem) e he).mono (hg.trans hg')
      · exact .such fun _ _ item hitem => List.mem_cons_of_mem _ (hr item hitem)

theorem dictEntries_twin (fuel : Nat) (entries : Array (Value × Value))
    (items : List (Option Expr × Expr))
    (hf : ∀ item ∈ items, ∀ e ∈ item.1.toList ++ [item.2], l.Fits tracked frames s e) :
    Twin l Same frames (ev.dictEntries s fuel entries items)
      (ev'.dictEntries s' fuel entries items) := by
  induction fuel generalizing entries items frames with
  | zero => exact .pure _
  | succ fuel ih =>
    unfold dictEntries
    refine .bindSuch (pairsBefore_twin hev hs items hf) fun _ r hg hr => ?_
    obtain ⟨pairs, rest⟩ := r
    refine .bind (putAll_plain entries pairs).twin fun _ entries hg' => ?_
    cases rest with
    | nil => exact .pure _
    | cons item rest =>
      obtain ⟨k, e⟩ := item
      have hrest : ∀ item ∈ (k, e) :: rest, ∀ e ∈ item.1.toList ++ [item.2],
          l.Fits tracked _ s e := fun item hitem e he =>
        (hf item (hr item hitem) e he).mono (hg.trans hg')
      have he := hrest (k, e) List.mem_cons_self e (List.mem_append_right _ List.mem_cons_self)
      refine .bind (hev.eval hs he) fun _ v hg₂ => ?_
      refine .bind (entriesOf?_plain v).twin fun _ more hg₃ => ?_
      split
      · refine .bind (putAll_plain entries _).twin fun _ entries hg₄ => ih entries rest ?_
        exact fun item hitem e he => (hrest item (List.mem_cons_of_mem _ hitem) e he).mono
          ((hg₂.trans hg₃).trans hg₄)
      · exact .fault _

theorem positional_twin (title : String) (arguments : List Expr)
    (hf : ∀ e ∈ arguments, l.Fits tracked frames s e) :
    Twin l Same frames (ev.positional s title arguments) (ev'.positional s' title arguments) := by
  unfold positional
  split
  · refine .bind (hev.eval hs ((hf _ List.mem_cons_self).part List.mem_cons_self)) fun _ v _ => ?_
    exact spread_twin hev v _
  · exact values_twin hev hs _ _ hf

theorem keywordArguments_twin (title : String) (bound : Bindings)
    (keywords : List (Option String × Expr))
    (hf : ∀ e ∈ keywords.map (·.2), l.Fits tracked frames s e) :
    Twin l Same frames (ev.keywordArguments s title bound keywords)
      (ev'.keywordArguments s' title bound keywords) := by
  induction keywords generalizing bound frames with
  | nil => exact .pure bound
  | cons first rest ih =>
    obtain ⟨_ | key, e⟩ := first
    · refine .bind (hev.eval hs (hf e List.mem_cons_self)) fun _ v hg => ?_
      refine .bind (entriesOf?_plain v).twin fun _ entries hg' => ?_
      split
      · refine .bind (.ofExcept _) fun _ bound hg₂ => ih bound fun e he => ?_
        exact (hf e (List.mem_cons_of_mem _ he)).mono ((hg.trans hg').trans hg₂)
      · exact .fault _
    · refine .bind (hev.eval hs (hf e List.mem_cons_self)) fun _ v hg => ?_
      refine .bind (.ofExcept _) fun _ bound hg' => ih bound fun e he => ?_
      exact (hf e (List.mem_cons_of_mem _ he)).mono (hg.trans hg')

theorem evalOption_twin (e : Option Expr) (hf : ∀ f ∈ e.toList, l.Fits tracked frames s f) :
    Twin l Same frames (ev.evalOption s e) (ev'.evalOption s' e) := by
  cases e with
  | none => exact .pure Value.none
  | some e => exact hev.eval hs (hf e List.mem_cons_self)

/-- A function made in two scopes is the same but for what these are told. -/
theorem function_twin (parameters : Parameters Expr) (body : Expr)
    (hf : l.Fits tracked frames s (.lambda parameters body)) :
    Twin l Same frames (ev.function s parameters body) (ev'.function s' parameters body) := by
  have hparts {frames' : Array Frame} (hg : Grows frames frames') : ∀ e ∈ parameters.defaults ++
      parameters.keywordOnly.filterMap (·.2), l.Fits tracked frames' s e := fun e he =>
    (hf.part he).mono hg
  refine .bind (.mapM _ fun _ hg e he => ?_) fun _ defaults hg => ?_
  · exact hev.eval hs (hparts hg e (List.mem_append_left _ he))
  refine .bind (.filterMapM _ fun _ hg' p hp => ?_) fun _ keywordDefaults hg' => ?_
  · obtain ⟨p, _ | e⟩ := p
    · exact .pure none
    · have he := hparts (hg.trans hg') e
        (List.mem_append_right _ (List.mem_filterMap.mpr ⟨_, hp, rfl⟩))
      exact .bind (hev.eval hs he) fun _ v _ => .pure _
  · obtain @⟨mode, loops, hmode, hloops⟩ := hs
    refine .bind (.allocate fun frames₂ hg₂ => ?_) fun _ r _ => .pure _
    have hgrows := (hg.trans hg').trans hg₂
    exact @Cell.Twin.function l _ tracked _ { s with lenient := mode, loops }
      ⟨fun context f h => hf.admits context f (.body h), fun ht => (hf.ready ht).mono hgrows,
        fun hframed => Nat.lt_of_lt_of_le (hf.framed hframed) hgrows.size⟩ (.told hmode hloops)

end InScope

theorem callValue_twin (f : Value) (args : List Value) (keywords : Bindings) :
    Twin l Same frames (ev.callValue f args keywords) (ev'.callValue f args keywords) := by
  unfold callValue
  split
  · exact Builtins.call_twin hev _ args keywords
  · exact Builtins.call_twin hev _ args keywords
  · exact Host.call_twin hev _ args keywords
  · exact callMethod_twin hev _ _ args keywords
  · exact callUnbound_twin hev _ _ args keywords
  · exact .pure _
  · rename_i r
    refine .getTwin fun h h' ht _ => ?_
    rcases ht.closure? r with ⟨hc, hc'⟩ | ⟨tracked, c, s, hc, hc', hfits, hs⟩
    · rw [hc, hc']
      exact .pure _
    · rw [hc, hc']
      exact c.call_twin hev hfits hs args keywords
  · exact .fault _

section Comprehensions

variable {s s' : Scope} (hs : s.Twin l s')

include hs

theorem sourceOf_twin (clauses : List (Clause Expr))
    (hf : ∀ e ∈ (clauses.take 1).map (·.source), l.Fits tracked frames s e) :
    Twin l Same frames (ev.sourceOf s clauses) (ev'.sourceOf s' clauses) := by
  cases clauses with
  | nil => exact .pure _
  | cons clause clauses =>
    refine .bind (hev.eval hs (hf clause.source List.mem_cons_self)) fun _ v _ => ?_
    split
    · exact .fault _
    · exact .pure v

theorem collected_twin (kind : Collector) (element : Expr) (clauses : List (Clause Expr))
    (hf : l.Fits tracked frames s (.collect kind element clauses)) :
    Twin l Same frames (ev.collected s kind element clauses)
      (ev'.collected s' kind element clauses) := by
  refine .bind (sourceOf_twin hev hs clauses fun e he => hf.part he) fun _ source hg => ?_
  refine .bindWith (Comprehension.start_twin hs (hf.mono hg) rfl _ source)
    fun frames₁ c c' hg₁ hc => ?_
  cases kind with
  | list =>
    refine .bind (.nested 1 (Comprehension.run_twin hev (fun items s s' hs hparts => ?_) _ _ hc))
      fun _ items _ => (Plain.newList items).twin
    exact .bind (hev.eval hs (hparts element List.mem_cons_self)) fun _ v _ => .pure _
  | set =>
    refine .nested 1 (.bind (Comprehension.run_twin hev (fun items s s' hs hparts => ?_) _ _ hc)
      fun _ items _ => (Plain.newSet _).twin)
    refine .bind (hev.eval hs (hparts element List.mem_cons_self)) fun _ v _ => ?_
    refine .get (fun h h' l => ?_) fun h => .ofExcept _
    rw [l.addItem]
  | generator =>
    refine .bind (.allocate fun frames₂ hg₂ => ?_) fun _ r _ => .pure _
    exact .generator (hc.retold.mono hg₂ hc.outer_le)

theorem collectedDict_twin (key value : Expr) (clauses : List (Clause Expr))
    (hf : l.Fits tracked frames s (.collectDict key value clauses)) :
    Twin l Same frames (ev.collectedDict s key value clauses)
      (ev'.collectedDict s' key value clauses) := by
  refine .bind (sourceOf_twin hev hs clauses fun e he => hf.part he) fun _ source hg => ?_
  refine .bindWith (Comprehension.start_twin hs (hf.mono hg) rfl _ source)
    fun frames₁ c c' hg₁ hc => .nested 1 ?_
  refine .bind (Comprehension.run_twin hev (fun entries s s' hs hparts => ?_) _ _ hc)
    fun _ entries _ => (Plain.newDict entries).twin
  refine .bind (hev.eval hs (hparts key List.mem_cons_self)) fun _ k hg => ?_
  have hvalue := (hparts value (List.mem_cons_of_mem _ List.mem_cons_self)).mono hg
  refine .bind (hev.eval hs hvalue) fun _ v _ => ?_
  refine .get (fun h h' l => ?_) fun h => .ofExcept _
  rw [l.putEntry]

theorem produced_twin (product : Product) (hf : ∀ e ∈ product.parts, l.Fits tracked frames s e) :
    Twin l Same frames (ev.produced s product) (ev'.produced s' product) := by
  cases product with
  | element e => exact hev.eval hs (hf e List.mem_cons_self)
  | pair key value =>
    refine .bind (hev.eval hs (hf key List.mem_cons_self)) fun _ k hg => ?_
    have hvalue := (hf value (List.mem_cons_of_mem _ List.mem_cons_self)).mono hg
    exact .bind (hev.eval hs hvalue) fun _ v _ => .pure _

end Comprehensions

theorem zipped_twin (strict : Bool) (i : Nat) (its : List Value) :
    Twin l Same frames (ev.zipped strict i its) (ev'.zipped strict i its) := by
  induction its generalizing i frames with
  | nil => exact .pure _
  | cons it rest ih =>
    unfold zipped
    refine .bind (hev.next it) fun _ v _ => ?_
    split
    · refine .bind (ih (i + 1)) fun _ vs _ => ?_
      split
      · exact .pure _
      · exact .pure _
    · split
      · exact .pure _
      · split
        · exact .fault _
        · refine .bind (.findM? _ fun _ _ e _ => ?_) fun _ longer _ => ?_
          · exact .bind (hev.next e.1) fun _ v _ => .pure _
          · split
            · exact .fault _
            · exact .pure _

/-- Both runs deliver the same item and a state each, whose states are twins. -/
def Delivered {σ : Type} (R : Array Frame → σ → σ → Prop) (frames : Array Frame) :
    Option (Value × σ) → Option (Value × σ) → Prop :=
  Option.Rel fun e e' => e.1 = e'.1 ∧ R frames e.2 e'.2

theorem nextRound_twin {c c' : Comprehension}
    (hc : c.Retold l tracked (c.iterators.length - 1) frames c') :
    Twin l (Delivered fun frames c c' => c.Retold l tracked (c.iterators.length - 1) frames c')
      frames (ev.nextRound c) (ev'.nextRound c') := by
  refine .tryCatch (.nested 1 ?_) (fun halt halt' hh => ?_) fun n h halt hl => ?_
  · refine .bindWith (Comprehension.advance_twin hev mostItems hc) fun frames₁ o o' _ ho => ?_
    cases ho with
    | none => exact .deliver fun _ _ => .none
    | @some c c' hround =>
      obtain ⟨hproduct, hclauses, houter, hretold⟩ := hround
      rw [← hclauses] at hretold houter
      have hsame : c'.product = c.product := by
        obtain @⟨s, hfits, hs⟩ := hretold
        rfl
      dsimp only
      rw [hsame]
      refine .bind (produced_twin hev hretold.fullScope_twin _ hretold.parts) fun _ v hg => ?_
      exact .deliver fun _ hg' => .some ⟨rfl, hretold.mono (hg.trans hg') houter⟩
  · cases hh with
    | same halt =>
      cases halt with
      | fault f => exact .fault _
      | undefinedName name available => exact .throw _
      | outOfSteps => exact .throw _
    | offered ho name available available' => exact .halted (.offered ho name _ _)
  · cases halt with
    | fault f => exact ⟨_, h, rfl, l.lost_inside hl⟩
    | undefinedName name available => exact ⟨_, h, rfl, hl⟩
    | outOfSteps => exact ⟨_, h, rfl, hl⟩

omit hev in
theorem subscriptsStep_plain (v : Value) (i : Nat) : Plain (ev.step (.subscripts v i)) := by
  refine .tryCatch (.bind (subscript_plain v _) fun w => .pure _) fun halt => ?_
  split
  · split
    · exact .pure none
    · exact .fault _
  · exact .throw _

omit hev in
theorem subscriptsStep_inert {v : Value} {i n : Nat} {h h' : Heap} {o : Option (Value × Cursor)}
    (hrun : (ev.step (.subscripts v i)).run n h = .ok o h') :
    ∀ e ∈ o, (Cell.iterator e.2).IsInert := by
  change Eval.handled (Eval.runOn ((Value.subscript v (.int i)).run n h) fun w h =>
    .ok (some (w, Cursor.subscripts v (i + 1))) h) _ = _ at hrun
  cases hitem : (Value.subscript v (.int i)).run n h with
  | ok w h₁ =>
    rw [hitem] at hrun
    cases hrun
    intro e he
    cases he
    trivial
  | error halt h₁ =>
    rw [hitem] at hrun
    unfold Eval.handled Eval.runOn at hrun
    dsimp only at hrun
    split at hrun
    · cases hrun
    · cases halt with
      | fault f =>
        dsimp only at hrun
        split at hrun
        · cases hrun
          exact nofun
        · cases hrun
      | undefinedName name available => cases hrun
      | outOfSteps => cases hrun

theorem stepInert_twin {c : Cursor} (hc : (Cell.iterator c).IsInert) :
    Twin l (Such fun _ o => ∀ e ∈ o, (Cell.iterator e.2).IsInert) frames (ev.step c)
      (ev'.step c) := by
  have hnone {frames : Array Frame} : Twin l (Such fun _ (o : Option (Value × Cursor)) =>
      ∀ e ∈ o, (Cell.iterator e.2).IsInert) frames (pure none) (pure none) :=
    .such fun _ _ => nofun
  have hsome {frames : Array Frame} (v : Value) {c : Cursor} (hc : (Cell.iterator c).IsInert) :
      Twin l (Such fun _ (o : Option (Value × Cursor)) => ∀ e ∈ o, (Cell.iterator e.2).IsInert)
        frames (pure (some (v, c))) (pure (some (v, c))) :=
    .such fun _ _ e he => by
      cases he
      exact hc
  cases c with
  | done => exact hnone
  | list r i =>
    refine .get (fun h h' l => ?_) fun h => ?_
    · rw [l.listItems]
    · split
      · exact hsome _ trivial
      · exact hnone
  | listBackward r remaining =>
    cases remaining with
    | zero => exact hnone
    | succ n =>
      refine .get (fun h h' l => ?_) fun h => ?_
      · rw [l.listItems]
      · split
        · exact hsome _ trivial
        · exact hnone
  | items rest =>
    cases rest with
    | nil => exact hnone
    | cons v rest => exact hsome v trivial
  | set r i size =>
    refine .get (fun h h' l => ?_) fun h => ?_
    · simp only [l.setItems]
    · dsimp only
      split
      · exact .failed _
      · split
        · exact hsome _ trivial
        · exact hnone
  | dict kind r i size =>
    refine .get (fun h h' l => ?_) fun h => ?_
    · simp only [l.dictEntries]
    · dsimp only
      split
      · exact .failed _
      · split
        · exact hsome _ trivial
        · exact hnone
  | dictBackward kind r remaining size =>
    refine .get (fun h h' l => ?_) fun h => ?_
    · simp only [l.dictEntries]
    · dsimp only
      split
      · exact .failed _
      · cases remaining with
        | zero => exact hnone
        | succ n =>
          dsimp only
          split
          · exact hsome _ trivial
          · exact hnone
  | range n step remaining =>
    cases remaining with
    | zero => exact hnone
    | succ k => exact hsome _ trivial
  | enumerate inner i =>
    refine .bind (hev.next inner) fun _ v _ => ?_
    split
    · exact hsome _ trivial
    · exact hnone
  | zip inner strict =>
    cases inner with
    | nil => exact hnone
    | cons it rest =>
      refine .bind (zipped_twin hev strict 0 (it :: rest)) fun _ vs _ => ?_
      split
      · exact hsome _ trivial
      · exact hnone
  | subscripts v i => exact (subscriptsStep_plain v i).such fun n h o h' => subscriptsStep_inert
  | comprehension c => exact hc.elim
  | loop r i =>
    refine .bind (Eval.passOf_plain r i).twin fun _ v _ => ?_
    split
    · exact hsome _ trivial
    · exact hnone

theorem step_twin {c c' : Cursor} (hc : (Cell.iterator c).Twin l frames (.iterator c')) :
    Twin l (Delivered fun frames c c' => (Cell.iterator c).Twin l frames (.iterator c')) frames
      (ev.step c) (ev'.step c') := by
  cases hc with
  | inert hinert =>
    refine (stepInert_twin hev hinert).imp fun _ o o' _ h => ?_
    obtain ⟨rfl, hstep⟩ := h
    cases o with
    | none => exact .none
    | some e => exact .some ⟨rfl, .inert (hstep e rfl)⟩
  | generator hc =>
    refine .bindWith (nextRound_twin hev hc) fun _ o o' _ ho => ?_
    cases ho with
    | none => exact .deliver fun _ _ => .none
    | some h =>
      exact .deliver fun _ hg => .some ⟨h.1, .generator (h.2.mono hg (Nat.le_refl _))⟩

omit hev in
theorem asksAgain_eq {c c' : Cursor} (hc : (Cell.iterator c).Twin l frames (.iterator c')) :
    asksAgain c = asksAgain c' := by
  cases hc with
  | inert hinert => rfl
  | generator hc => rfl

theorem nextItem_twin (it : Value) : Twin l Same frames (ev.nextItem it) (ev'.nextItem it) := by
  unfold nextItem
  split
  · rename_i kind r
    refine .getTwin fun h h' ht _ => ?_
    have hc := ht.cursor r
    refine .bindWith (step_twin hev hc) fun _ o o' _ ho => ?_
    cases ho with
    | none =>
      dsimp only
      rw [asksAgain_eq hc]
      split
      · exact .bind (.write r fun _ _ => .inert trivial) fun _ _ _ => .pure none
      · exact .pure none
    | @some e e' h =>
      obtain ⟨v, c⟩ := e
      obtain ⟨v', c'⟩ := e'
      obtain ⟨hv, hcursor⟩ := h
      cases hv
      exact .bind (.write r fun _ hg => hcursor.mono hg) fun _ _ _ => .pure (some v)
  · exact .pure none

theorem expression_twin {look look' : Scope → String → Eval Value} (hlook : l.Meets look look')
    {s s' : Scope} (hs : s.Twin l s') (e : Expr) (hf : l.Fits tracked frames s e) :
    Twin l Same frames (ev.expressionBy look s e) (ev'.expressionBy look' s' e) := by
  cases e with
  | literal v => exact .pure _
  | name id => exact hlook.name hs hf
  | interpolated fragments =>
    refine .bind (.mapM fragments fun _ hg f hmem => ?_) fun _ texts _ => .pure _
    exact fragment_twin hev hs hmem (hf.mono hg)
  | display kind items => exact display_twin hev hs kind items fun e he => hf.part he
  | dict entries =>
    have hitems : ∀ item ∈ entries, ∀ e ∈ item.1.toList ++ [item.2],
        l.Fits tracked frames s e := fun item hitem e he =>
      hf.part (List.mem_flatMap.mpr ⟨item, hitem, he⟩)
    exact .bind (dictEntries_twin hev hs _ _ entries hitems) fun _ entries _ =>
      (Plain.newDict entries).twin
  | starred e => exact hev.eval hs (hf.part List.mem_cons_self)
  | unary op e =>
    exact .bind (hev.eval hs (hf.part List.mem_cons_self)) fun _ v _ =>
      (operateUnary_plain op v).twin
  | binary op a b =>
    refine .bind (hev.eval hs (hf.part List.mem_cons_self)) fun _ v hg => ?_
    have hb := (hf.part (List.mem_cons_of_mem _ List.mem_cons_self)).mono hg
    exact .bind (hev.eval hs hb) fun _ w _ => (operate_plain op v w).twin
  | boolean any operands => exact boolean_twin hev hs any operands fun e he => hf.part he
  | compare first rest =>
    refine .bind (hev.eval hs (hf.part List.mem_cons_self)) fun _ v hg => ?_
    exact comparison_twin hev hs v rest fun e he => (hf.part (List.mem_cons_of_mem _ he)).mono hg
  | conditional test yes no =>
    refine .bind (hev.eval hs (hf.part List.mem_cons_self)) fun _ t hg => ?_
    have hbranch : ∀ e ∈ [yes, no], l.Fits tracked _ s e := fun e he =>
      (hf.part (List.mem_cons_of_mem _ he)).mono hg
    refine .get (fun h h' l => ?_) fun h => ?_
    · rw [l.truth]
    · split
      · exact hev.eval hs (hbranch yes List.mem_cons_self)
      · exact hev.eval hs (hbranch no (List.mem_cons_of_mem _ List.mem_cons_self))
  | «attribute» e label =>
    refine .bind (hev.eval hs (hf.part List.mem_cons_self)) fun _ v _ => ?_
    cases hs with
    | told hmode hloops => exact hlook.member v label hmode
  | subscript e index =>
    refine .bind (hev.eval hs (hf.part List.mem_cons_self)) fun _ v hg => ?_
    have hindex := (hf.part (List.mem_cons_of_mem _ List.mem_cons_self)).mono hg
    exact .bind (hev.eval hs hindex) fun _ i _ => (subscript_plain v i).twin
  | slice start stop step =>
    have hstart : ∀ e ∈ start.toList, l.Fits tracked frames s e := fun e he =>
      hf.part (List.mem_append_left _ (List.mem_append_left _ he))
    have hstop : ∀ e ∈ stop.toList, l.Fits tracked frames s e := fun e he =>
      hf.part (List.mem_append_left _ (List.mem_append_right _ he))
    have hstep : ∀ e ∈ step.toList, l.Fits tracked frames s e := fun e he =>
      hf.part (List.mem_append_right _ he)
    refine .bind (evalOption_twin hev hs start hstart) fun _ a hg => ?_
    refine .bind (evalOption_twin hev hs stop fun e he => (hstop e he).mono hg) fun _ b hg' => ?_
    have hstep' := fun e he => (hstep e he).mono (hg.trans hg')
    exact .bind (evalOption_twin hev hs step hstep') fun _ c _ => .pure _
  | call f arguments keywords =>
    refine .bind (hev.eval hs (hf.part List.mem_cons_self)) fun _ f hg => ?_
    have hrest : ∀ e ∈ arguments ++ keywords.map (·.2), l.Fits tracked _ s e := fun e he =>
      (hf.part (List.mem_cons_of_mem _ he)).mono hg
    refine .get (fun h h' l => ?_) fun h => ?_
    · rw [l.functionTitle]
    · refine .bind (positional_twin hev hs _ arguments fun e he =>
        hrest e (List.mem_append_left _ he)) fun _ args hg' => ?_
      refine .bind (keywordArguments_twin hev hs _ [] keywords fun e he =>
        (hrest e (List.mem_append_right _ he)).mono hg') fun _ named _ => ?_
      exact hev.call f args.toList named
  | lambda parameters body => exact function_twin hev hs parameters body hf
  | collect kind element clauses => exact collected_twin hev hs kind element clauses hf
  | collectDict key value clauses => exact collectedDict_twin hev hs key value clauses hf
  | assignment target e => exact hev.eval hs (hf.part List.mem_cons_self)
  | await e => exact hev.eval hs (hf.part List.mem_cons_self)
  | yielded e => exact evalOption_twin hev hs e fun e' he' => hf.part he'
  | yieldedFrom e => exact hev.eval hs (hf.part List.mem_cons_self)

omit hev in
/-- With the same bound on their steps, evaluations whose rules for names do alike are paired. -/
theorem runBy_paired {look look' : Scope → String → Eval Value} (hlook : l.Meets look look')
    (n : Nat) : (runBy look n).Paired l (runBy look' n) := by
  induction n with
  | zero => exact ⟨fun _ _ => .throw _, fun _ _ _ => .throw _, fun _ => .throw _⟩
  | succ n ih =>
    exact ⟨fun hs hf => expression_twin ih hlook hs _ hf, fun f args keywords =>
      callValue_twin ih f args keywords, fun it => nextItem_twin ih it⟩

end Evaluator

def Scope.dataAnswer (s : Scope) (id : String) (d : RenderData) : Except Halt Value :=
  match d.names.get? id with
  | some v => .ok v
  | none =>
    if s.lenient then .ok .undefined
    else
      match d.otherKeys.findSome? Builtins.lengthFault? with
      | none => .error (.undefinedName id d.names.keys)
      | some f => .error (.fault f)

theorem Scope.dataValue_run (s : Scope) (id : String) (n : Nat) (h : Heap) :
    (s.dataValue id).run n h = match s.dataAnswer id (h.data.getD s.data default) with
      | .ok v => .ok v h
      | .error halt => .error halt h := by
  change (match (h.data.getD s.data default).names.get? id with
    | some v => Pure.pure v
    | none =>
      if s.lenient then Pure.pure Value.undefined
      else
        match (h.data.getD s.data default).otherKeys.findSome? Builtins.lengthFault? with
        | none => throw (.undefinedName id (h.data.getD s.data default).names.keys)
        | some f => Eval.fault f : Eval Value).run n h = _
  unfold Scope.dataAnswer
  split
  · rfl
  · split
    · rfl
    · split
      · rfl
      · rfl

theorem dataValue_joined {s : Scope} {id : String} {h h' : Heap} (ht : h.Twin l h')
    (hdata : h'.data.getD s.data default = h.data.getD s.data default) (n : Nat) :
    Joined l Same h.frames ((s.dataValue id).run n h) ((s.dataValue id).run n h') := by
  rw [Scope.dataValue_run, Scope.dataValue_run, hdata]
  cases s.dataAnswer id (h.data.getD s.data default) with
  | ok v => exact .ok ht (.refl _) rfl
  | error halt => exact .error ht (.refl _) (.same halt)

theorem member_alike (mode : Bool) (v : Value) (label : String) :
    Twin l Same frames (if mode then Value.memberLenient v label else Value.member v label)
      (if mode then Value.memberLenient v label else Value.member v label) := by
  cases mode with
  | false => exact (member_plain v label).twin
  | true => exact (memberLenient_plain v label).twin

section Lookup

variable {s s' : Scope} (hs : s.Twin l s')

include hs

theorem localValue_twin (id : String) :
    Twin l Same frames (s.localValue id) (s'.localValue id) := by
  cases hs with
  | told hmode hloops =>
    unfold Scope.localValue
    dsimp only
    split
    · exact .fault _
    · refine .frame fun b b' hb => ?_
      rw [hb _ (l.tally.shared_own _ id)]
      split
      · exact .pure _
      · exact .fault _

/-- Names are looked up alike if loops that mean them have the variable in common, and where they
mean the render data. -/
theorem lookup_twin_of (id : String)
    (hloop : (s'.loopOf? id).map (·.position) = (s.loopOf? id).map (·.position))
    (hshared : ∀ loop, s.loopOf? id = some loop →
      l.tally.shared s.frame (.ofLoop loop.position id))
    (hdata : (∀ own ∈ s.locals, id ∉ own.active) → s.loopOf? id = none →
      Twin l Same frames (s.dataValue id) (s'.dataValue id)) :
    Twin l Same frames (s.lookup id) (s'.lookup id) := by
  have hlocal : Twin l Same frames _ _ := localValue_twin hs id
  obtain @⟨mode, loops, hmode, hloops⟩ := hs
  unfold Scope.lookup
  dsimp only
  split
  · exact hlocal
  · rename_i hown
    have hfree : ∀ own ∈ s.locals, id ∉ own.active := fun own hmem hid =>
      hown (List.any_eq_true.mpr ⟨own, hmem, List.contains_iff_mem.mpr hid⟩)
    cases hfound : s.loopOf? id with
    | none =>
      rw [hfound, Option.map_none, Option.map_eq_none_iff] at hloop
      rw [hloop]
      exact hdata hfree hfound
    | some loop =>
      rw [hfound, Option.map_some, Option.map_eq_some_iff] at hloop
      obtain ⟨loop', hfound', hposition⟩ := hloop
      rw [hfound']
      dsimp only
      rw [hposition]
      refine .frame fun b b' hb => ?_
      rw [hb _ (hshared loop hfound)]
      split
      · exact .pure _
      · exact .fault _

/-- In frames of which both runs are told the same, names are looked up alike if they are where
they mean the render data. -/
theorem lookup_twin (id : String) (hframe : ¬ l.tally.apart s.frame)
    (hdata : (∀ own ∈ s.locals, id ∉ own.active) → s.loopOf? id = none →
      Twin l Same frames (s.dataValue id) (s'.dataValue id)) :
    Twin l Same frames (s.lookup id) (s'.lookup id) := by
  refine lookup_twin_of hs id ?_ (fun loop _ => l.tally.shared_of _ hframe) hdata
  obtain @⟨mode, loops, hmode, hloops⟩ := hs
  cases l.tally.together hframe hloops
  rfl

end Lookup

end Stencil
