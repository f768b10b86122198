import Stencil.Proofs.SafeMethods
import Stencil.Proofs.TwinExpressions

/-!
# Expressions are safe

One step of an evaluator is safe if the steps inside it are, and asking an iterator for an item is,
as far as the loops that are asked may be moved. So by induction on nested steps evaluation is safe.
-/

namespace Stencil

variable {l : Licence} {h : Heap} {s : Scope} {v w : Value} {id : String}

@[simp] theorem suits_comprehension {c : Comprehension} : Suits h c ↔ Suits h c.iterators := Iff.rfl

namespace Safe

theorem localValue : Safe l h (s.localValue id) := by
  unfold Scope.localValue
  split
  · exact fault _
  · exact lookup _ _ (fault _)

theorem dataValue : Safe l h (s.dataValue id) := by
  refine bind (data s.data) fun {h' d} _ hd => ?_
  have hnames : Suits h' d.names := hd.of_refs fun x hx => List.mem_append_left _ hx
  split
  · exact pure (lookup_suits hnames ‹_›)
  · split
    · exact pure suits_undefinedValue
    · rename_i hmissing _
      split
      · refine throw fun hbarred => ?_
        obtain ⟨_, _, ⟨⟩, hmem⟩ := l.barred hbarred
        obtain ⟨⟨key, v⟩, hentry, rfl⟩ := List.mem_map.mp hmem
        have hsome := BindingsOf.get?_isSome.mpr ⟨v, hentry⟩
        rw [hmissing] at hsome
        cases hsome
      · exact fault _

theorem scopeLookup : Safe l h (s.lookup id) := by
  unfold Scope.lookup
  split
  · exact localValue
  · split
    · exact lookup _ _ (fault _)
    · exact dataValue

theorem suits_literal (x : Literal) : Suits h (Evaluator.literal x) := by
  cases x <;> exact suits_of_isEmpty rfl

theorem converted (conversion : Option Char) (hv : Suits h v) :
    Safe l h (Evaluator.converted conversion v) := by
  refine .get fun _ => ?_
  split
  · exact compute fun _ => pure (suits_strValue _)
  · exact compute fun _ => pure (suits_strValue _)
  · exact compute fun _ => pure (suits_strValue _)
  · exact pure hv

theorem addAll {items vs : List Value} (hi : Suits h items) (hv : Suits h vs) :
    Safe l h (Evaluator.addAll items vs) :=
  .get fun _ => ofExcept fun hr => addItems_suits hi hv hr

theorem putAll {entries : Array (Value × Value)} {pairs : List (Value × Value)}
    (he : Suits h entries) (hp : Suits h pairs) : Safe l h (Evaluator.putAll entries pairs) :=
  .get fun _ => ofExcept fun hr => putEntries_suits he (suits_toArray.mpr hp) hr

theorem mergeKeywords_suits {title : String} {bound : Bindings} {entries : List (Value × Value)}
    (hb : Suits h bound) (he : Suits h entries) :
    Delivers (Suits h) (Evaluator.mergeKeywords title bound entries) := by
  induction entries generalizing bound with
  | nil => exact .pure hb
  | cons e entries ih =>
    obtain ⟨he₁, hes⟩ := suits_cons.mp he
    intro new hr
    obtain ⟨next, hnext, hr⟩ := Except.ok_of_bind hr
    refine ih ?_ hes _ hr
    obtain ⟨k, v⟩ := e
    dsimp only at hnext
    split at hnext
    · split at hnext
      · cases hnext
      · cases hnext
        have hv := (suits_pair.mp he₁).2
        exact suits_append.mpr ⟨hb, suits_cons.mpr ⟨suits_pair.mpr ⟨suits_string _, hv⟩, suits_nil⟩⟩
    · cases hnext

section Parts

variable {ev : Evaluator} (hev : ev.IsSafe l)

include hev

theorem compareWith (op : CompareOp) (hw : Suits h w) : Safe l h (ev.compareWith op v w) := by
  refine .get fun _ => ?_
  cases op with
  | member => exact isIn hev hw
  | notMember => exact bind (isIn hev hw) fun _ _ => pure (suits_bool _)
  | unequal => exact compute fun _ => pure (suits_bool _)
  | identical | distinct => exact pure (suits_bool _)
  | _ => exact ofExcept fun _ => suits_bool _

theorem comparison (hv : Suits h v) (rest : List (CompareOp × Expr)) :
    Safe l h (ev.comparison s v rest) := by
  induction rest generalizing h v with
  | nil => exact pure (suits_boolValue _)
  | cons e rest ih =>
    obtain ⟨op, e⟩ := e
    refine bind hev.eval fun hl hw => bind (compareWith hev op hw) fun hl' _ => ?_
    split
    · split
      · exact pure (suits_boolValue _)
      · exact ih (hw.after hl')
    · exact pure (suits_boolValue _)

theorem boolean (any : Bool) (es : List Expr) : Safe l h (ev.boolean s any es) := by
  induction es generalizing h with
  | nil => exact pure (suits_boolValue _)
  | cons e es ih =>
    cases es with
    | nil => exact hev.eval
    | cons e' es =>
      refine bind hev.eval fun hl hv => .get fun _ => ?_
      split
      · exact pure hv
      · exact ih

theorem fragment (f : Fragment Expr) : Safe l h (ev.fragment s f) := by
  cases f with
  | text t => exact pure (suits_string t)
  | field e conversion format =>
    refine bind hev.eval fun _ hv => bind (converted conversion hv) fun _ _ => ?_
    cases format with
    | none => exact .get fun _ => ofExcept fun _ => suits_string _
    | some f =>
      refine bind (map hev.eval fun _ _ => suits_string _) fun _ _ => ?_
      exact .get fun _ => ofExcept fun _ => suits_string _

theorem spread (wrong : Value → Fault) (hv : Suits h v) : Safe l h (ev.spread v wrong) := by
  refine bind (toIterator? hv) fun {_ found} _ hfound => ?_
  cases found with
  | some it => exact drain hev (suits_some.mp hfound)
  | none => exact fault _

theorem values (wrong : Value → Fault) (es : List Expr) : Safe l h (ev.values s wrong es) := by
  induction es generalizing h with
  | nil => exact pure (suits_of_isEmpty rfl)
  | cons e es ih =>
    have hrest {h : Heap} {first : Array Value} (hf : Suits h first) :
        Safe l h (do return first ++ (← ev.values s wrong es)) :=
      bind ih fun hl hvs => pure (suits_appendArray.mpr ⟨hf.after hl, hvs⟩)
    unfold Evaluator.values
    dsimp only
    split
    · exact bind hev.eval fun _ hv => bind (spread hev wrong hv) fun _ hf => hrest hf
    · exact bind hev.eval fun _ hv => hrest (suits_list_iff.mpr (by simpa using hv))

theorem addEach {items : List Value} (hi : Suits h items) (es : List Expr) :
    Safe l h (ev.addEach s items es) := by
  induction es generalizing h items with
  | nil => exact pure hi
  | cons e es ih =>
    refine bind (values hev _ _) fun hl hvs => ?_
    exact bind (addAll (hi.after hl) (suits_toList.mpr hvs)) fun _ hall => ih hall

theorem display (kind : Display) (items : List Expr) : Safe l h (ev.display s kind items) := by
  cases kind with
  | tuple => exact bind (values hev _ _) fun _ hvs => pure ((suits_tupleValue _).mpr hvs)
  | list => exact bind (values hev _ _) fun _ hvs => newList hvs
  | set =>
    refine bind (values hev _ _) fun _ hvs => bind (addAll suits_nil (suits_toList.mpr hvs)) ?_
    refine fun _ hfront => bind (addEach hev hfront _) fun _ hall => newSet ?_
    split
    · exact suits_toArray.mpr (arrangeConstants_suits hall)
    · exact suits_toArray.mpr (arrange_suits hall)

omit hev in
theorem suits_items (items : List (Option Expr × Expr)) : Suits h items := by
  refine suits_list_iff.mpr fun e _ => suits_pair.mpr ⟨?_, suits_expr _⟩
  cases e.1 with
  | none => exact suits_none
  | some k => exact suits_some.mpr (suits_expr k)

theorem pairsBefore (items : List (Option Expr × Expr)) : Safe l h (ev.pairsBefore s items) := by
  induction items generalizing h with
  | nil => exact pure (suits_pair.mpr ⟨suits_nil, suits_nil⟩)
  | cons item items ih =>
    obtain ⟨key, e⟩ := item
    cases key with
    | none => exact pure (suits_pair.mpr ⟨suits_nil, suits_items _⟩)
    | some k =>
      refine bind hev.eval fun _ hk => bind hev.eval fun hl hv => bind ih fun hl' hrest => pure ?_
      obtain ⟨hpairs, hrest⟩ := suits_pair.mp hrest
      have hpair := suits_pair.mpr ⟨(hk.after hl).after hl', hv.after hl'⟩
      exact suits_pair.mpr ⟨suits_cons.mpr ⟨hpair, hpairs⟩, hrest⟩

theorem dictEntries (fuel : Nat) {entries : Array (Value × Value)} (he : Suits h entries)
    (items : List (Option Expr × Expr)) : Safe l h (ev.dictEntries s fuel entries items) := by
  induction fuel generalizing h entries items with
  | zero => exact pure he
  | succ fuel ih =>
    refine bind (pairsBefore hev items) fun {h' found} hl hfound => ?_
    obtain ⟨pairs, rest⟩ := found
    refine bind (putAll (he.after hl) (suits_pair.mp hfound).1) fun hl' he' => ?_
    cases rest with
    | nil => exact pure he'
    | cons item rest =>
      refine bind hev.eval fun hl'' _ => bind entriesOf? fun {_ more} hl₃ hmore => ?_
      cases more with
      | none => exact fault _
      | some more =>
        refine bind (putAll ((he'.after hl'').after hl₃) (suits_some.mp hmore)) fun _ hall => ?_
        exact ih hall rest

theorem positional (title : String) (arguments : List Expr) :
    Safe l h (ev.positional s title arguments) := by
  unfold Evaluator.positional
  split
  · exact bind hev.eval fun _ hv => spread hev _ hv
  · exact values hev _ _

theorem keywordArguments (title : String) {bound : Bindings} (hb : Suits h bound)
    (given : List (Option String × Expr)) :
    Safe l h (ev.keywordArguments s title bound given) := by
  induction given generalizing h bound with
  | nil => exact pure hb
  | cons e given ih =>
    obtain ⟨key, e⟩ := e
    cases key with
    | some key =>
      refine bind hev.eval fun hl hv => compute fun hmerged => ih ?_
      refine mergeKeywords_suits (hb.after hl) ?_ _ hmerged
      exact suits_cons.mpr ⟨suits_pair.mpr ⟨suits_strValue key, hv⟩, suits_nil⟩
    | none =>
      refine bind hev.eval fun hl hv => bind entriesOf? fun {_ more} hl' hmore => ?_
      cases more with
      | none => exact fault _
      | some more =>
        refine compute fun hmerged => ih ?_
        exact mergeKeywords_suits ((hb.after hl).after hl') (suits_some.mp hmore) _ hmerged

theorem callValue {args : List Value} {keywords : Bindings} (hv : Suits h v) (hargs : Suits h args)
    (hkeywords : Suits h keywords) : Safe l h (ev.callValue v args keywords) := by
  unfold Evaluator.callValue
  split
  · exact callBuiltin hev _ hargs hkeywords
  · exact callBuiltin hev _ hargs hkeywords
  · exact callHost hev _ hargs hkeywords
  · exact callMethod hev _ ((suits_methodValue _ _).mp hv) hargs hkeywords
  · exact callUnbound hev _ _ hargs hkeywords
  · exact pure suits_undefinedValue
  · refine .get fun hs => ?_
    split
    · exact callClosure hev (hs.closure ‹_›) hargs hkeywords
    · exact pure suits_noneValue
  · exact fault _

theorem function (parameters : Parameters Expr) (body : Expr) :
    Safe l h (ev.function s parameters body) := by
  refine bind (mapM fun _ _ => hev.eval) fun {h' defaults} _ hdefaults => ?_
  refine bind (filterMapM fun {h'' e} _ _ => ?_) fun {h'' named} hl hnamed => ?_
  · obtain ⟨p, d⟩ := e
    cases d with
    | some d =>
      exact bind hev.eval fun _ hv => pure (suits_some.mpr (suits_pair.mpr ⟨suits_string p, hv⟩))
    | none => exact pure suits_none
  · have hc : Suits h'' (Cell.function
        ⟨parameters, body, s, defaults, named, s.path ++ ".<locals>.<lambda>"⟩) :=
      suits_closure.mpr ⟨hdefaults.after hl, hnamed⟩
    exact allocate_bind nofun hc fun _ ho => pure ((suits_functionValue _).mpr ho)

theorem conditionsHold (conditions : List Expr) :
    Safe l h (Comprehension.conditionsHold ev s conditions) := by
  induction conditions generalizing h with
  | nil => exact pure (suits_bool _)
  | cons e es ih =>
    refine bind hev.eval fun _ _ => .get fun _ => ?_
    split
    · exact ih
    · exact pure (suits_bool _)

/-- The induction is on the rounds that may still be passed over. -/
theorem advance (fuel : Nat) {c : Comprehension} (hc : Suits h c) :
    Safe l h (Comprehension.advance ev fuel c) := by
  induction fuel generalizing h c with
  | zero => exact outOfSteps
  | succ fuel ih =>
    obtain ⟨product, clauses, scope, iterators⟩ := c
    replace hc : Suits h iterators := hc
    cases iterators with
    | nil => exact pure suits_none
    | cons it outer =>
      obtain ⟨hit, houter⟩ := suits_cons.mp hc
      unfold Comprehension.advance
      dsimp only
      split
      · exact pure suits_none
      · rename_i clause _
        refine bind (hev.next hit) fun {h₁ item} hl hitem => ?_
        cases item with
        | none => exact ih (houter.after hl)
        | some v =>
          have hstores : Stores l clause.target.storedNames fun id w =>
              Eval.bind (Comprehension.frame ⟨product, clauses, scope, it :: outer⟩) (.own id) w :=
            fun _ hw => bindVariable (l.own _ _) hw
          refine bind (assign hev clause.target hstores (suits_some.mp hitem)) fun hl' _ => ?_
          refine bind (conditionsHold hev _) fun {h₃ _} hl'' _ => ?_
          have hl₃ := (hl.trans hl').trans hl''
          have hiterators : Suits h₃ (it :: outer) := hc.after hl₃
          split
          · split
            · exact pure (suits_some.mpr hiterators)
            · refine bind hev.eval fun hl₄ hsource => ?_
              refine bind (toIterator hsource) fun hl₅ hit' => ih ?_
              exact suits_cons.mpr ⟨hit', (hiterators.after hl₄).after hl₅⟩
          · exact ih hiterators

theorem rounds {σ : Type} [Refers σ] {step : σ → Scope → Eval σ} (hstep : ∀ {h : Heap} {a : σ}
    {s : Scope}, Suits h a → Safe l h (step a s)) (fuel : Nat) {a : σ} (ha : Suits h a)
    {c : Comprehension} (hc : Suits h c) : Safe l h (Comprehension.run ev step fuel a c) := by
  induction fuel generalizing h a c with
  | zero => exact outOfSteps
  | succ fuel ih =>
    refine bind (advance hev _ hc) fun {_ next} hl hnext => ?_
    cases next with
    | none => exact pure (ha.after hl)
    | some c =>
      refine bind (hstep (ha.after hl)) fun hl' ha' => ih ha' ?_
      exact (suits_some.mp hnext).after hl'

omit hev in
theorem start (title : String) (product : Product) (clauses : List (Clause Expr))
    (hv : Suits h v) : Safe l h (Comprehension.start s title product clauses v) := by
  refine bind (newFrame nofun) fun hl _ => bind (toIterator (hv.after hl)) fun _ hit => pure ?_
  exact suits_cons.mpr ⟨hit, suits_nil⟩

theorem sourceOf (clauses : List (Clause Expr)) : Safe l h (ev.sourceOf s clauses) := by
  cases clauses with
  | nil => exact pure ((suits_tupleValue _).mpr suits_nil)
  | cons c clauses =>
    refine bind hev.eval fun _ hv => ?_
    split
    · exact fault _
    · exact pure hv

theorem collected (kind : Collector) (element : Expr) (clauses : List (Clause Expr)) :
    Safe l h (ev.collected s kind element clauses) := by
  refine bind (sourceOf hev clauses) fun _ hsource => bind (start _ _ _ hsource) fun _ hc => ?_
  cases kind with
  | list =>
    refine bind (nested 1 (rounds hev (fun ha => ?_) _ (suits_of_isEmpty rfl) hc)) fun _ hitems =>
      newList hitems
    exact bind hev.eval fun hl hv => pure (suits_push.mpr ⟨ha.after hl, hv⟩)
  | set =>
    refine nested 1 (bind (rounds hev (fun ha => ?_) _ suits_nil hc) fun _ hitems =>
      newSet (suits_toArray.mpr (arrange_suits hitems)))
    exact bind hev.eval fun hl hv => .get fun _ => ofExcept fun hr =>
      addItem_suits (ha.after hl) hv hr
  | generator => exact newIterator hc

theorem collectedDict (key value : Expr) (clauses : List (Clause Expr)) :
    Safe l h (ev.collectedDict s key value clauses) := by
  refine bind (sourceOf hev clauses) fun _ hsource => bind (start _ _ _ hsource) fun _ hc => ?_
  refine nested 1 (bind (rounds hev (fun ha => ?_) _ (suits_of_isEmpty rfl) hc) fun _ he =>
    newDict he)
  refine bind hev.eval fun hl hk => bind hev.eval fun hl' hv => .get fun _ => ofExcept fun hr => ?_
  exact putEntry_suits ((ha.after hl).after hl') (hk.after hl') hv hr

theorem produced (p : Product) : Safe l h (ev.produced s p) := by
  cases p with
  | element e => exact hev.eval
  | pair k v =>
    refine bind hev.eval fun _ hk => bind hev.eval fun hl hv => pure ?_
    exact (suits_tupleValue _).mpr (suits_cons.mpr ⟨hk.after hl, suits_cons.mpr ⟨hv, suits_nil⟩⟩)

omit hev in
theorem viewItem_suits (kind : ViewKind) {e : Value × Value} (he : Suits h e) :
    Suits h (Evaluator.viewItem kind e) := by
  obtain ⟨hk, hv⟩ := suits_pair.mp he
  cases kind with
  | keys => exact hk
  | values => exact hv
  | items => exact (suits_tupleValue _).mpr (suits_cons.mpr ⟨hk, suits_cons.mpr ⟨hv, suits_nil⟩⟩)

theorem findLonger {its : List (Value × Nat)} (hits : Suits h its) :
    Safe l h (its.findM? fun (it, _) => do return (← ev.next it).isSome) := by
  induction its generalizing h with
  | nil => exact pure suits_none
  | cons it its ih =>
    obtain ⟨hit, hits⟩ := suits_cons.mp hits
    refine bind (map (hev.next (suits_pair.mp hit).1) fun _ _ => suits_bool _) ?_
    intro _ found hl _
    cases found with
    | true => exact pure (suits_some.mpr (hit.after hl))
    | false => exact ih (hits.after hl)

theorem zipped (strict : Bool) (i : Nat) {its : List Value} (hits : Suits h its) :
    Safe l h (ev.zipped strict i its) := by
  induction its generalizing h i with
  | nil => exact pure (suits_some.mpr suits_nil)
  | cons it its ih =>
    obtain ⟨hit, hits⟩ := suits_cons.mp hits
    refine bind (hev.next hit) fun {_ item} hl hitem => ?_
    cases item with
    | some v =>
      refine bind (ih (i + 1) (hits.after hl)) fun {_ rest} hl' hrest => ?_
      cases rest with
      | none => exact pure suits_none
      | some vs =>
        have hv := (suits_some.mp hitem).after hl'
        exact pure (suits_some.mpr (suits_cons.mpr ⟨hv, suits_some.mp hrest⟩))
    | none =>
      dsimp only
      split
      · exact pure suits_none
      · split
        · exact fault _
        · refine bind (findLonger hev (suits_list_iff.mpr fun e he => ?_)) fun {_ longer} _ _ => ?_
          · have hmem : e.1 ∈ its := by
              have := List.mem_map_of_mem (f := Prod.fst) he
              rwa [List.zipIdx_map_fst] at this
            exact suits_pair.mpr ⟨suits_list_iff.mp (hits.after hl) e.1 hmem, suits_nat _⟩
          · cases longer with
            | some place => exact fault _
            | none => exact pure suits_none

theorem nextRound {c : Comprehension} (hc : Suits h c) : Safe l h (ev.nextRound c) := by
  refine tryCatch (nested 1 (bind (advance hev _ hc) fun {_ next} _ hnext => ?_))
    fun halt hhalt _ => ?_
  · cases next with
    | none => exact pure suits_none
    | some c =>
      refine bind (produced hev _) fun hl hv => pure (suits_some.mpr (suits_pair.mpr ⟨hv, ?_⟩))
      exact (suits_some.mp hnext).after hl
  · cases halt with
    | fault f => exact fault _
    | _ => exact throw hhalt

theorem step {c : Cursor} (hc : Suits h c) (hmoves : ∀ r i, c = .loop r i → l.moves r) :
    Safe l h (ev.step c) := by
  have hpair {h' : Heap} {v : Value} {c' : Cursor} (hv : Suits h' v) (hc' : Suits h' c') :
      Suits h' (some (v, c')) := suits_some.mpr (suits_pair.mpr ⟨hv, hc'⟩)
  cases c with
  | done => exact pure suits_none
  | list r i =>
    refine .get fun hs => ?_
    split
    · exact pure (hpair (suits_getElem? (hs.listItems r) ‹_›) hc)
    · exact pure suits_none
  | listBackward r remaining =>
    cases remaining with
    | zero => exact pure suits_none
    | succ n =>
      refine .get fun hs => ?_
      split
      · exact pure (hpair (suits_getElem? (hs.listItems r) ‹_›) hc)
      · exact pure suits_none
  | items rest =>
    replace hc : Suits h rest := hc
    cases rest with
    | nil => exact pure suits_none
    | cons v rest =>
      obtain ⟨hv, hrest⟩ := suits_cons.mp hc
      exact pure (hpair hv hrest)
  | set r i size =>
    refine .get fun hs => fault_or ?_
    split
    · exact pure (hpair (suits_getElem? (hs.setItems r) ‹_›) hc)
    · exact pure suits_none
  | dict kind r i size =>
    refine .get fun hs => fault_or ?_
    split
    · exact pure (hpair (viewItem_suits kind (suits_getElem? (hs.dictEntries r) ‹_›)) hc)
    · exact pure suits_none
  | dictBackward kind r remaining size =>
    refine .get fun hs => fault_or ?_
    cases remaining with
    | zero => exact pure suits_none
    | succ n =>
      dsimp only
      split
      · exact pure (hpair (viewItem_suits kind (suits_getElem? (hs.dictEntries r) ‹_›)) hc)
      · exact pure suits_none
  | range n step k =>
    cases k with
    | zero => exact pure suits_none
    | succ k => exact pure (hpair (suits_intValue _) (suits_of_isEmpty rfl))
  | enumerate inner i =>
    replace hc : Suits h inner := hc
    refine bind (hev.next hc) fun {_ item} hl hitem => ?_
    cases item with
    | none => exact pure suits_none
    | some v =>
      have hboth :=
        suits_cons.mpr ⟨suits_intValue i, suits_cons.mpr ⟨suits_some.mp hitem, suits_nil⟩⟩
      exact pure (hpair ((suits_tupleValue _).mpr hboth) (hc.after hl))
  | zip inner strict =>
    replace hc : Suits h inner := hc
    cases inner with
    | nil => exact pure suits_none
    | cons it inner =>
      refine bind (zipped hev strict 0 hc) fun {_ found} hl hfound => ?_
      cases found with
      | none => exact pure suits_none
      | some vs =>
        have hvs := (suits_tupleValue _).mpr (suits_some.mp hfound)
        exact pure (hpair hvs (hc.after hl))
  | subscripts v i =>
    replace hc : Suits h v := hc
    refine tryCatch (bind (subscript hc (suits_intValue _)) fun hl hv => ?_) fun halt hhalt _ => ?_
    · exact pure (hpair hv (hc.after hl))
    · cases halt with
      | fault f =>
        dsimp only
        split
        · exact pure suits_none
        · exact fault _
      | _ => exact throw hhalt
  | comprehension c =>
    refine bind (nextRound hev (c := c) hc) fun {_ found} _ hfound => ?_
    cases found with
    | none => exact pure suits_none
    | some found => exact pure hfound
  | loop r i =>
    have ho : h.Offers .loop r := hc (.loop, r) List.mem_cons_self
    refine bind (passOf i ho (hmoves r i rfl)) fun {_ item} hl hitem => ?_
    cases item with
    | none => exact pure suits_none
    | some v =>
      have hc' : Suits _ (Cursor.loop r (i + 1)) := (suits_loopValue r).mpr (hl.offers ho)
      exact pure (hpair (suits_some.mp hitem) hc')

theorem nextItem {it : Value} (hit : Suits h it)
    (hmoves : ∀ k q r i, it = .iterator k q → h.cursor q = .loop r i → l.moves r) :
    Safe l h (ev.nextItem it) := by
  unfold Evaluator.nextItem
  split
  · rename_i k q
    have ho := (suits_iteratorValue q k).mp hit
    refine .get fun hs => ?_
    have hstep := step hev (hs.cursor q) fun r i hc => hmoves k q r i rfl hc
    refine bind hstep fun {_ found} hl hfound => ?_
    cases found with
    | some found =>
      obtain ⟨v, c⟩ := found
      obtain ⟨hv, hc⟩ := suits_pair.mp (suits_some.mp hfound)
      exact bind (write (hl.offers ho) nofun hc) fun hl' _ => pure (suits_some.mpr (hv.after hl'))
    | none =>
      dsimp only
      split
      · exact bind (write (hl.offers ho) nofun (suits_of_isEmpty rfl)) fun _ _ => pure suits_none
      · exact pure suits_none
  · exact pure suits_none

theorem evalOption (e : Option Expr) : Safe l h (ev.evalOption s e) := by
  cases e with
  | some e => exact hev.eval
  | none => exact pure suits_noneValue

theorem expression (e : Expr) : Safe l h (ev.expression s e) := by
  cases e with
  | literal x => exact pure (suits_literal x)
  | name id => exact scopeLookup
  | interpolated fragments =>
    exact bind (mapM fun _ _ => fragment hev _) fun _ _ => pure (suits_strValue _)
  | display kind items => exact display hev kind items
  | dict entries =>
    exact bind (dictEntries hev _ (suits_of_isEmpty rfl) _) fun _ he => newDict he
  | starred e => exact hev.eval
  | unary op e => exact bind hev.eval fun _ _ => operateUnary op
  | binary op a b =>
    exact bind hev.eval fun _ hv => bind hev.eval fun hl hw => operate op (hv.after hl) hw
  | boolean any operands => exact boolean hev any operands
  | compare first rest => exact bind hev.eval fun _ hv => comparison hev hv rest
  | conditional test yes no =>
    refine bind hev.eval fun _ _ => .get fun _ => ?_
    split
    · exact hev.eval
    · exact hev.eval
  | «attribute» e label =>
    refine bind hev.eval fun _ hv => ?_
    split
    · exact memberLenient hv
    · exact member hv
  | subscript e index =>
    exact bind hev.eval fun _ hv => bind hev.eval fun hl hi => subscript (hv.after hl) hi
  | slice start stop step =>
    refine bind (evalOption hev start) fun _ ha => bind (evalOption hev stop) fun hl hb => ?_
    refine bind (evalOption hev step) fun hl' hc => pure ((suits_sliceValue _ _ _).mpr ⟨?_, ?_, hc⟩)
    · exact (ha.after hl).after hl'
    · exact hb.after hl'
  | call f arguments keywords =>
    refine bind hev.eval fun _ hf => .get fun _ => ?_
    refine bind (positional hev _ arguments) fun hl hargs => ?_
    refine bind (keywordArguments hev _ suits_nil keywords) fun hl' hnamed => ?_
    exact hev.call ((hf.after hl).after hl') (suits_toList.mpr (hargs.after hl')) hnamed
  | lambda parameters body => exact function hev parameters body
  | collect kind element clauses => exact collected hev kind element clauses
  | collectDict key value clauses => exact collectedDict hev key value clauses
  | assignment _ e => exact hev.eval
  | await e => exact hev.eval
  | yieldedFrom e => exact hev.eval
  | yielded e => exact evalOption hev e

end Parts

end Safe

namespace Evaluator

theorem exhausted_isSafe (l : Licence) : exhausted.IsSafe l :=
  ⟨Safe.outOfSteps, fun _ _ _ => Safe.outOfSteps, fun _ => Safe.outOfSteps⟩

/-- Evaluation is safe where every loop may be moved and the rule for names is safe. -/
theorem runBy_isSafe (hl : ∀ r, l.moves r) {look : Scope → String → Eval Value}
    (hlook : ∀ {h : Heap} {s : Scope} {id : String}, Safe l h (look s id)) (n : Nat) :
    (runBy look n).IsSafe l := by
  induction n with
  | zero => exact exhausted_isSafe l
  | succ n ih =>
    refine ⟨fun {h s e} => ?_, Safe.callValue ih, fun hit => ?_⟩
    · change Safe l h ((runBy look n).expressionBy look s e)
      unfold expressionBy
      split
      · exact hlook
      · exact Safe.expression ih e
    · exact Safe.nextItem ih hit fun _ _ r _ _ _ => hl r

theorem standard_isSafe (hl : ∀ r, l.moves r) : standard.IsSafe l := by
  unfold standard
  rw [← runBy_lookup]
  exact runBy_isSafe hl Safe.scopeLookup _

end Evaluator

end Stencil
