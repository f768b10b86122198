import Stencil.Evaluation.Comprehension
import Stencil.Proofs.SafeValues

/-!
# Iteration is safe

Where an evaluator is safe, so is all that only asks its iterators for items: collecting,
unpacking and assigning, searching and spreading.
-/

namespace Stencil

/-- Whatever is evaluated, called or asked for an item. -/
structure Evaluator.IsSafe (l : Licence) (ev : Evaluator) : Prop where
  eval : ∀ {h : Heap} {s : Scope} {e : Expr}, Safe l h (ev.eval s e)
  call : ∀ {h : Heap} {f : Value} {args : List Value} {keywords : Bindings},
    Suits h f → Suits h args → Suits h keywords → Safe l h (ev.call f args keywords)
  next : ∀ {h : Heap} {it : Value}, Suits h it → Safe l h (ev.next it)

variable {l : Licence} {h : Heap} {v w : Value}

namespace Safe

theorem suits_intValues {α : Type} (f : α → Int) (items : List α) :
    Suits h (items.map fun a => Value.int (f a)) := by
  refine suits_list_iff.mpr fun v hv => ?_
  obtain ⟨a, -, rfl⟩ := List.mem_map.mp hv
  exact suits_intValue _

theorem suits_strValues {α : Type} (f : α → String) (items : List α) :
    Suits h (items.map fun a => Value.str (f a)) := by
  refine suits_list_iff.mpr fun v hv => ?_
  obtain ⟨a, -, rfl⟩ := List.mem_map.mp hv
  exact suits_strValue _

theorem toIterator? (hv : Suits h v) : Safe l h v.toIterator? := by
  have hmade (kind : IteratorKind) {c : Cursor} (hc : Suits h c) :
      Safe l h (Eval.newIterator kind c >>= fun it => Pure.pure (some it)) :=
    bind (newIterator hc) fun _ hit => pure (suits_some.mpr hit)
  refine .get fun _ => ?_
  cases v with
  | list r => exact hmade .list hv
  | tuple items => exact hmade .tuple (c := .items items) ((suits_tupleValue items).mp hv)
  | str s => exact hmade _ (c := .items _) (suits_strValues (fun c => c.toString) s.toList)
  | bytes b => exact hmade .bytes (c := .items _) (suits_intValues (fun c => c.toNat) b)
  | range a b c => exact hmade _ (c := .range _ _ _) (suits_of_isEmpty rfl)
  | dict r => exact hmade _ (c := .dict _ r _ _) hv
  | view kind r => exact hmade _ (c := .dict _ r _ _) hv
  | set r => exact hmade _ (c := .set r _ _) hv
  | row r => exact hmade _ (c := .subscripts _ _) hv
  | undefined => exact hmade _ (c := .items []) (suits_of_isEmpty rfl)
  | loop r => exact hmade _ (c := .loop r _) hv
  | iterator kind r =>
    cases kind with
    | asyncGenerator => exact pure suits_none
    | _ => exact pure (suits_some.mpr hv)
  | _ => exact pure suits_none

theorem toIterator (hv : Suits h v) : Safe l h v.toIterator := by
  refine bind (toIterator? hv) fun {h' found} _ hfound => ?_
  cases found with
  | some it => exact pure (suits_some.mp hfound)
  | none => exact fault _

section Steps

variable {ev : Evaluator} (hev : ev.IsSafe l) {it : Value}

include hev

theorem walk {σ : Type} [Refers σ] {step : σ → Value → Eval (ForInStep σ)} (hit : Suits h it)
    (hstep : ∀ {h' : Heap} {s : σ} {v : Value}, l.Leads h h' → Suits h' s → Suits h' v →
      Safe l h' (step s v)) (fuel : Nat) {s : σ} (hs : Suits h s) :
    Safe l h (ev.walk it step fuel s) := by
  induction fuel generalizing h s with
  | zero => exact outOfSteps
  | succ fuel ih =>
    refine bind (hev.next hit) fun {h₁ next} hl hnext => ?_
    cases next with
    | none => exact pure (hs.after hl)
    | some v =>
      refine bind (hstep hl (hs.after hl) (suits_some.mp hnext)) fun {h₂ taken} hl' htaken => ?_
      have hl₂ := hl.trans hl'
      cases taken with
      | done s => exact pure htaken
      | yield s =>
        exact ih (hit.after hl₂) (fun hl'' hs' hv => hstep (hl₂.trans hl'') hs' hv) htaken

theorem drain (hit : Suits h it) : Safe l h (ev.drain it) := by
  refine walk hev hit (fun _ hitems hv => pure ?_) _ suits_nil
  exact suits_push.mpr ⟨hitems, hv⟩

theorem collect (hv : Suits h v) : Safe l h (ev.collect v) :=
  bind (toIterator hv) fun _ hit => drain hev hit

theorem takeAtMost (hit : Suits h it) (n : Nat) : Safe l h (ev.takeAtMost it n) := by
  induction n generalizing h with
  | zero => exact pure suits_nil
  | succ n ih =>
    refine bind (hev.next hit) fun {h₁ next} hl hnext => ?_
    cases next with
    | none => exact pure suits_nil
    | some v =>
      refine bind (ih (hit.after hl)) fun hl' hrest => pure ?_
      exact suits_cons.mpr ⟨(suits_some.mp hnext).after hl', hrest⟩

omit hev in
theorem iteratorToUnpack (hv : Suits h v) : Safe l h (Evaluator.iteratorToUnpack v) := by
  refine bind (toIterator? hv) fun {h' found} _ hfound => ?_
  cases found with
  | some it => exact pure (suits_some.mp hfound)
  | none => exact fault _

theorem unpackExactly (hv : Suits h v) (n : Nat) : Safe l h (ev.unpackExactly v n) := by
  refine bind (iteratorToUnpack hv) fun _ hit => ?_
  refine bind (takeAtMost hev hit n) fun hl hitems => fault_or ?_
  refine bind (hev.next (hit.after hl)) fun {h' next} hl' hnext => ?_
  cases next with
  | none => exact pure (hitems.after hl')
  | some v => exact fault _

omit hev in
theorem suits_extract {items : Array Value} (hi : Suits h items) (i j : Nat) :
    Suits h (items.extract i j) := by
  refine suits_array_iff.mpr fun v hv => suits_array_iff.mp hi v ?_
  obtain ⟨k, hk, rfl⟩ := Array.mem_extract_iff_getElem.mp hv
  exact Array.getElem_mem _

theorem unpackAround (hv : Suits h v) (before after : Nat) :
    Safe l h (ev.unpackAround v before after) := by
  refine bind (iteratorToUnpack hv) fun _ hit => ?_
  refine bind (takeAtMost hev hit before) fun hl hfirst => fault_or ?_
  refine bind (drain hev (hit.after hl)) fun hl' hrest => fault_or ?_
  refine bind (newList (suits_extract hrest _ _)) fun hl'' hmiddle => pure ?_
  refine suits_append.mpr ⟨(hfirst.after hl').after hl'', suits_cons.mpr ⟨hmiddle, ?_⟩⟩
  exact suits_toList.mpr ((suits_extract hrest _ _).after hl'')

theorem unpack (targets : List Expr) (hv : Suits h v) : Safe l h (ev.unpack targets v) := by
  unfold Evaluator.unpack
  split
  · exact unpackExactly hev hv _
  · exact unpackAround hev hv _ _

end Steps

theorem suits_setIfInBounds {items : Array Value} (hi : Suits h items) (hv : Suits h v) (i : Nat) :
    Suits h (items.setIfInBounds i v) := by
  refine suits_array_iff.mpr fun w hw => ?_
  rcases Array.mem_or_eq_of_mem_setIfInBounds hw with hold | rfl
  · exact suits_array_iff.mp hi w hold
  · exact hv

theorem assignItem {container index : Value} (hc : Suits h container) (hi : Suits h index)
    (hv : Suits h v) : Safe l h (Evaluator.assignItem container index v) := by
  refine .get fun hs => ?_
  split
  · refine compute fun _ => write ((suits_listValue _).mp hc) nofun ?_
    exact suits_setIfInBounds (hs.listItems _) hv _
  · refine compute fun hput => write ((suits_dictValue _).mp hc) nofun ?_
    exact putEntry_suits (hs.dictEntries _) hi hv hput
  · exact fault _

theorem suits_put {fields : Bindings} (hf : Suits h fields) {name : String} (hv : Suits h v) :
    Suits h (fields.put name v) := by
  induction fields with
  | nil => exact suits_cons.mpr ⟨suits_pair.mpr ⟨suits_string name, hv⟩, suits_nil⟩
  | cons field fields ih =>
    obtain ⟨hfield, hfields⟩ := suits_cons.mp hf
    unfold BindingsOf.put
    split
    · exact suits_cons.mpr ⟨suits_pair.mpr ⟨suits_string _, hv⟩, hfields⟩
    · exact suits_cons.mpr ⟨hfield, ih hfields⟩

theorem assignAttribute {container : Value} {name : String} (hc : Suits h container)
    (hv : Suits h v) : Safe l h (Evaluator.assignAttribute container name v) := by
  unfold Evaluator.assignAttribute
  split
  · exact .get fun hs => write ((suits_objectValue _).mp hc) nofun (suits_put (hs.fields _) hv)
  · exact fault _

def Stores (l : Licence) (names : List String) (store : String → Value → Eval Unit) : Prop :=
  ∀ {h : Heap} {id : String} {v : Value}, id ∈ names → Suits h v → Safe l h (store id v)

section Assignment

variable {ev : Evaluator} {s : Scope} {store : String → Value → Eval Unit}

mutual

theorem assign (hev : ev.IsSafe l) : ∀ {h : Heap} (target : Expr) {v : Value},
    Stores l target.storedNames store → Suits h v → Safe l h (ev.assign s store target v)
  | h, target, v, hstore, hv => by
    unfold Evaluator.assign
    split
    · exact hstore List.mem_cons_self hv
    · exact assign hev _ hstore hv
    · exact bind (unpack hev _ hv) fun _ hvs => assignAll hev _ hstore hvs
    · refine bind hev.eval fun hl hc => ?_
      exact bind hev.eval fun hl' hi => assignItem (hc.after hl') hi (hv.after (hl.trans hl'))
    · exact bind hev.eval fun hl hc => assignAttribute hc (hv.after hl)
    · exact pure (suits_unit _)

theorem assignAll (hev : ev.IsSafe l) : ∀ {h : Heap} (targets : List Expr) {vs : List Value},
    Stores l (Expr.storedNamesOfAll targets) store → Suits h vs →
    Safe l h (ev.assignAll s store targets vs)
  | h, target :: targets, v :: vs, hstore, hvs => by
    obtain ⟨hv, hvs⟩ := suits_cons.mp hvs
    unfold Evaluator.assignAll
    have hfirst : Stores l target.storedNames store := fun hid =>
      hstore (List.mem_append_left _ hid)
    refine bind (assign hev target hfirst hv) fun hl _ => ?_
    exact assignAll hev targets (fun hid => hstore (List.mem_append_right _ hid)) (hvs.after hl)
  | h, [], _, _, _ => pure (suits_unit _)
  | h, _ :: _, [], _, _ => pure (suits_unit _)

end

end Assignment

theorem isAmong (items : List Value) : Safe l h (Evaluator.isAmong items v) :=
  .get fun _ => ofExcept fun _ => suits_bool _

section Spreading

variable {ev : Evaluator} (hev : ev.IsSafe l)

include hev

theorem isIn (hw : Suits h w) : Safe l h (ev.isIn v w) := by
  refine .get fun _ => ?_
  split
  · exact ofExcept fun _ => suits_bool _
  · exact ofExcept fun _ => suits_bool _
  · exact isAmong _
  · exact isAmong _
  · exact compute fun _ => pure (suits_bool _)
  · exact compute fun _ => pure (suits_bool _)
  · exact isAmong _
  · exact isAmong _
  · split
    · exact isAmong _
    · exact compute fun _ => pure (suits_bool _)
  · exact pure (suits_bool _)
  · refine bind (toIterator? hw) fun {h' found} _ hfound => ?_
    cases found with
    | none => exact fault _
    | some it =>
      refine walk hev (suits_some.mp hfound) (fun _ _ _ => .get fun _ => compute fun {a} _ => ?_) _
        (suits_bool _)
      cases a with
      | true => exact pure (suits_done.mpr (suits_bool true))
      | false => exact pure (suits_yield.mpr (suits_bool false))

omit hev in
theorem entriesOf? : Safe l h (Evaluator.entriesOf? v) := by
  unfold Evaluator.entriesOf?
  split
  · exact .get fun hs => pure (suits_some.mpr (hs.dictEntries _))
  · exact pure (suits_of_isEmpty rfl)
  · exact pure suits_none

theorem pairAt (i : Nat) (hv : Suits h v) : Safe l h (ev.pairAt i v) := by
  refine bind (toIterator? hv) fun {h' found} _ hfound => ?_
  cases found with
  | none => exact fault _
  | some it =>
    refine bind (drain hev (suits_some.mp hfound)) fun {h'' items} _ hitems => ?_
    split
    · rename_i k w hpair
      have hpair' : Suits h'' [k, w] := hpair ▸ suits_toList.mpr hitems
      exact pure (by simpa using hpair')
    · exact fault _

omit hev in
theorem putInto {r : Ref} {k : Value} (ho : h.Offers .dict r) (hk : Suits h k) (hv : Suits h v) :
    Safe l h (do
      let h ← MonadState.get
      Eval.write r (.dict (← Eval.ofExcept (Value.putEntry h (h.dictEntries r) k v)))) :=
  .get fun hs => compute fun hput =>
    write ho nofun (putEntry_suits (hs.dictEntries _) hk hv hput)

theorem updateDict {r : Ref} (ho : h.Offers .dict r) (hv : Suits h v) :
    Safe l h (ev.updateDict r v) := by
  refine bind entriesOf? fun {h' found} hl hfound => ?_
  cases found with
  | some entries =>
    obtain ⟨entries⟩ := entries
    have hentries := suits_list_iff.mp (suits_toArray.mp (suits_some.mp hfound))
    dsimp only
    rw [List.forM_toArray' entries _ rfl]
    refine forM fun {h'' e} hl' he => ?_
    obtain ⟨hk, hw⟩ := suits_pair.mp ((hentries e he).after hl')
    exact putInto ((hl.trans hl').offers ho) hk hw
  | none =>
    refine bind (toIterator (hv.after hl)) fun hl' hit => ?_
    refine bind (walk hev hit (fun hl'' _ hpair => ?_) _ (suits_nat 0)) fun _ _ =>
      pure (suits_unit _)
    refine bind (pairAt hev _ hpair) fun {_ e} hl₃ he => ?_
    obtain ⟨hk, hw⟩ := suits_pair.mp he
    have ho' := (((hl.trans hl').trans hl'').trans hl₃).offers ho
    exact bind (putInto ho' hk hw) fun _ _ => pure (suits_yield.mpr (suits_nat _))

end Spreading

end Safe

end Stencil
