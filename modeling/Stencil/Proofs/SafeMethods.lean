import Stencil.Evaluation.Closure
import Stencil.Proofs.SafeCalls

/-!
# Methods and anonymous functions are safe

Methods change the container that they are called on and nothing else; an anonymous function has
its arguments and its defaults in a frame of its own.
-/

namespace Stencil

variable {l : Licence} {h : Heap} {args : List Value} {keywords : Bindings} {v w : Value}

namespace Safe

theorem split (s : List Char) : Safe l h (TextMethod.split s args keywords) := by
  have hdone {h : Heap} (pieces : List (List Char)) :
      Safe l h (Eval.newList (pieces.map fun p => Value.str (String.ofList p)).toArray) :=
    newList (suits_toArray.mpr (suits_strValues String.ofList pieces))
  refine compute fun _ => compute fun _ => ?_
  dsimp only
  split
  · exact hdone _
  · split
    · exact fault_bind
    · exact hdone _
  · exact fault_bind

theorem strip_suits (name : String) (ends : TextMethod.Ends) (s : List Char) :
    Delivers (Suits h) (TextMethod.strip name ends s args) := by
  refine .bind fun _ => ?_
  split
  · exact .pure (suits_strValue _)
  · exact .pure (suits_strValue _)
  · exact .error

theorem replace_suits (s : List Char) : Delivers (Suits h) (TextMethod.replace s args) :=
  .bind fun _ => .bind fun _ => .bind fun _ => .bind fun _ => .pure (suits_strValue _)

theorem indexIn (items : List Value) (missing : Value → Except Fault Fault) :
    Safe l h (Stencil.indexIn items args missing) := by
  refine compute fun _ => .get fun _ => ?_
  refine compute fun _ => compute fun _ => compute fun {found} _ => ?_
  cases found with
  | some place => exact pure (suits_intValue _)
  | none => exact compute fun _ => fault _

theorem countIn (items : List Value) : Safe l h (Stencil.countIn items v) :=
  .get fun _ => compute fun _ => pure (suits_intValue _)

theorem suits_arrayGetD {items : Array Value} (hi : Suits h items) (hw : Suits h w) (i : Nat) :
    Suits h (items.getD i w) := by
  rw [Array.getD_eq_getD_getElem?]
  cases hitem : items[i]? with
  | none => exact hw
  | some v => exact suits_getElem? hi hitem

section Lists

variable {r : Ref} (ho : h.Offers .list r)

include ho

theorem writeList {items : Array Value} (hi : Suits h items) :
    Safe l h (do Eval.write r (.list items); return Value.none) :=
  bind (write ho nofun hi) fun _ _ => pure suits_noneValue

theorem removeAt (i : Nat) : Safe l h (ListMethod.removeAt r i) :=
  .get fun hs => write ho nofun (suits_eraseIdx (hs.listItems r) i)

theorem pop : Safe l h (ListMethod.pop r args) := by
  refine compute fun _ => .get fun hs => compute fun _ => fault_or ?_
  refine fault_or (bind (removeAt ho _) fun hl _ => pure (Suits.after ?_ hl))
  exact suits_arrayGetD (hs.listItems r) suits_noneValue _

theorem insert (hargs : Suits h args) : Safe l h (ListMethod.insert r args) := by
  refine compute fun _ => .get fun hs => compute fun _ => ?_
  have hi : Suits h (h.listItems r).toList := suits_toList.mpr (hs.listItems r)
  have hv := suits_getD hargs 1 suits_noneValue
  refine writeList ho (suits_toArray.mpr (suits_append.mpr ⟨?_, suits_cons.mpr ⟨hv, ?_⟩⟩))
  · exact suits_of_sublist hi (List.take_sublist _ _)
  · exact suits_of_sublist hi (List.drop_sublist _ _)

theorem removeItem : Safe l h (ListMethod.remove r v) := by
  refine .get fun _ => compute fun {found} _ => ?_
  cases found with
  | some place => exact bind (removeAt ho _) fun _ _ => pure suits_noneValue
  | none => exact fault _

end Lists

section Sets

variable {r : Ref} (ho : h.Offers .set r)

include ho

theorem removeMember (name : String) : Safe l h (SetMethod.remove r name v) := by
  refine .get fun hs => compute fun {found} _ => ?_
  cases found with
  | some i =>
    have hi : Suits h (h.setItems r).toList := suits_toList.mpr (hs.setItems r)
    have hrest := suits_of_sublist hi (List.eraseIdx_sublist _ i)
    exact bind (write ho nofun (suits_toArray.mpr hrest)) fun _ _ => pure suits_noneValue
  | none =>
    dsimp only
    split
    · exact ofExcept missingKey_fails
    · exact pure suits_noneValue

theorem callSet (name : String) (hargs : Suits h args) :
    Safe l h (SetMethod.call r name args keywords) := by
  refine compute fun _ => .get fun hs => ?_
  have hi : Suits h (h.setItems r).toList := suits_toList.mpr (hs.setItems r)
  dsimp only
  split
  · refine compute fun hv => compute fun hset => ?_
    have hall := suits_append.mpr ⟨hi, suits_cons.mpr ⟨one_suits hargs _ hv, suits_nil⟩⟩
    exact bind (write ho nofun (setOf_suits hall hset)) fun _ _ => pure suits_noneValue
  · exact compute fun _ => removeMember ho _
  · exact compute fun _ => removeMember ho _
  · refine compute fun _ => ?_
    split
    · exact newSet (suits_toArray.mpr hi)
    · exact bind (write ho nofun (suits_of_isEmpty rfl)) fun _ _ => pure suits_noneValue
    · exact fault _

end Sets

theorem callTuple (items : List Value) (name : String) :
    Safe l h (Stencil.callTuple items name args keywords) := by
  refine compute fun _ => ?_
  split
  · exact indexIn _ _
  · exact compute fun _ => countIn _

theorem callLoop (r : Ref) (hargs : Suits h args) :
    Safe l h (Stencil.callLoop r args keywords) := by
  unfold Stencil.callLoop
  split
  · refine .get fun _ => pure ?_
    split
    · exact suits_noneValue
    · exact suits_optionGetD (suits_argument hargs _) suits_noneValue
  · exact fault _

section Methods

variable {ev : Evaluator} (hev : ev.IsSafe l)

include hev

theorem join (s : String) (hv : Suits h v) : Safe l h (TextMethod.join ev s v) := by
  refine bind (toIterator? hv) fun {h' found} _ hfound => ?_
  cases found with
  | none => exact fault _
  | some it =>
    refine bind (drain hev (suits_some.mp hfound)) fun _ _ => ?_
    refine bind (mapM fun {h'' e} _ _ => ?_) fun _ _ => pure (suits_strValue _)
    obtain ⟨item, i⟩ := e
    cases item with
    | str t => exact pure (suits_string t)
    | _ => exact fault _

theorem callText (s name : String) (hargs : Suits h args) :
    Safe l h (TextMethod.call ev s name args keywords) := by
  unfold TextMethod.call
  dsimp only
  refine checked ?_
  split
  · exact compute fun _ => pure (suits_strValue _)
  · split
    · exact Safe.split _
    · exact delivered (strip_suits _ _ _)
    · exact delivered (strip_suits _ _ _)
    · exact delivered (strip_suits _ _ _)
    · exact compute fun _ => pure (suits_intValue _)
    · exact compute fun _ => pure (suits_intValue _)
    · refine compute fun {found} _ => ?_
      cases found with
      | some i => exact pure (suits_intValue _)
      | none => exact fault _
    · refine compute fun {found} _ => ?_
      cases found with
      | some i => exact pure (suits_intValue _)
      | none => exact fault _
    · exact compute fun _ => pure (suits_intValue _)
    · exact compute fun _ => pure (suits_boolValue _)
    · exact compute fun _ => pure (suits_boolValue _)
    · exact delivered (replace_suits _)
    · exact compute fun hv => join hev s (one_suits hargs _ hv)
    · exact fault _

theorem callList {r : Ref} (ho : h.Offers .list r) (name : String) (hargs : Suits h args) :
    Safe l h (ListMethod.call ev r name args keywords) := by
  refine compute fun _ => .get fun hs => ?_
  have hi := hs.listItems r
  dsimp only
  split
  · exact compute fun hv => writeList ho (suits_push.mpr ⟨hi, one_suits hargs _ hv⟩)
  · refine compute fun hv => ?_
    refine bind (collect hev (one_suits hargs _ hv)) fun hl hmore => .get fun hs' => ?_
    exact writeList (hl.offers ho) (suits_appendArray.mpr ⟨hs'.listItems r, hmore⟩)
  · exact pop ho
  · exact insert ho hargs
  · exact compute fun _ => removeItem ho
  · exact .get fun _ => indexIn _ _
  · exact compute fun _ => countIn _
  · refine compute fun _ => writeList ho (suits_array_iff.mpr fun v hv => ?_)
    exact suits_array_iff.mp hi v (Array.mem_reverse.mp hv)
  · exact compute fun _ => writeList ho (suits_of_isEmpty rfl)
  · exact compute fun _ => newList hi
  · exact fault _

theorem callDict {r : Ref} (ho : h.Offers .dict r) (name : String) (hargs : Suits h args)
    (hkeywords : Suits h keywords) : Safe l h (DictMethod.call ev r name args keywords) := by
  have hdone {h' : Heap} (hl : l.Leads h h') : Safe l h' (do
      keywords.forM fun e => do
        let h ← MonadState.get
        Eval.write r (.dict (← Eval.ofExcept (Value.putEntry h (h.dictEntries r) (.str e.1) e.2)))
      return Value.none) :=
    bind (putNamed (hl.offers ho) (hkeywords.after hl)) fun _ _ => pure suits_noneValue
  have hkey {k usual : Value} (hk : DictMethod.keyWithDefault name args = .ok (k, usual)) :
      Suits h k ∧ Suits h usual := by
    obtain ⟨-, -, hk⟩ := Except.ok_of_bind hk
    cases hk
    exact ⟨suits_headD hargs suits_noneValue, suits_getD hargs 1 suits_noneValue⟩
  refine checked (.get fun hs => ?_)
  have he := hs.dictEntries r
  dsimp only
  split
  · refine compute fun hk => compute fun hfound => pure ?_
    exact suits_optionGetD (lookupKey_suits he hfound) (hkey hk).2
  · refine compute fun {given} hk => compute fun {found} hfound => ?_
    cases found with
    | some v => exact pure (suits_some.mp (lookupKey_suits he hfound))
    | none =>
      obtain ⟨hk, husual⟩ := hkey hk
      refine bind (write ho nofun (suits_push.mpr ⟨he, suits_pair.mpr ⟨hk, husual⟩⟩)) ?_
      exact fun hl _ => pure (husual.after hl)
  · refine compute fun {given} hk => compute fun {found} hfound => ?_
    cases found with
    | some found =>
      obtain ⟨hv, hrest⟩ := suits_pair.mp (suits_some.mp (eraseEntry_suits he hfound))
      exact bind (write ho nofun hrest) fun hl _ => pure (hv.after hl)
    | none =>
      dsimp only
      split
      · exact pure (hkey hk).2
      · exact ofExcept missingKey_fails
  · refine compute fun _ => ?_
    split
    · rename_i v hv
      have hfits : Suits h v := suits_list_iff.mp hargs v (List.mem_of_mem_head? hv)
      exact bind (updateDict hev ho hfits) fun hl _ => hdone hl
    · exact hdone (.refl l h)
  · refine compute fun _ => ?_
    split
    · exact pure ((suits_viewValue r _).mpr ho)
    · exact pure ((suits_viewValue r _).mpr ho)
    · exact pure ((suits_viewValue r _).mpr ho)
    · exact newDict he
    · exact bind (write ho nofun (suits_of_isEmpty rfl)) fun _ _ => pure suits_noneValue
    · exact fault _

theorem callRange (name : String) (hv : Suits h v) :
    Safe l h (Stencil.callRange ev v name args keywords) := by
  refine compute fun _ => compute fun _ => bind (collect hev hv) fun _ _ => ?_
  split
  · exact .get fun _ => indexIn _ _
  · exact countIn _

theorem callMethod (name : String) (hv : Suits h v) (hargs : Suits h args)
    (hkeywords : Suits h keywords) : Safe l h (Stencil.callMethod ev v name args keywords) := by
  unfold Stencil.callMethod
  split
  · exact callText hev _ name hargs
  · exact callList hev ((suits_listValue _).mp hv) name hargs
  · exact callDict hev ((suits_dictValue _).mp hv) name hargs hkeywords
  · exact callSet ((suits_setValue _).mp hv) name hargs
  · exact callTuple _ name
  · exact callRange hev name hv
  · exact callLoop _ hargs
  · exact fault _

theorem callUnbound (kind : Builtin) (name : String) (hargs : Suits h args)
    (hkeywords : Suits h keywords) :
    Safe l h (Stencil.callUnbound ev kind name args keywords) := by
  unfold Stencil.callUnbound
  split
  · exact fault _
  · obtain ⟨hv, hrest⟩ := suits_cons.mp hargs
    split
    · exact callMethod hev name hv hrest hkeywords
    · exact fault _

theorem callNext (hargs : Suits h args) : Safe l h (Host.next ev args keywords) := by
  refine compute fun _ => ?_
  have hv := suits_headD hargs suits_noneValue
  split
  · rename_i hit
    rw [hit] at hv
    refine bind (hev.next hv) fun {h' item} hl hitem => ?_
    have husual := (suits_argument hargs 1).after hl
    split
    · exact pure (suits_some.mp hitem)
    · rename_i husual'
      rw [husual'] at husual
      exact pure (suits_some.mp husual)
    · exact fault _
  · exact fault _

omit hev in
theorem url_suits : Delivers (Suits h) (Host.url args keywords) := by
  refine .bind fun v => ?_
  split
  · exact .pure (suits_strValue _)
  · exact .error

omit hev in
theorem fails_suits (title : String) (f : Fault) :
    Delivers (Suits h) (Host.fails title f keywords) := by
  unfold Host.fails
  split
  · exact .error
  · exact .error

omit hev in
theorem echo (hargs : Suits h args) (hkeywords : Suits h keywords) :
    Safe l h (Host.echo args keywords) := by
  refine bind (mapM fun {h' e} hl he => ?_) fun hl hpairs => newList ?_
  · have hmem := List.mem_mergeSort.mp he
    have hv := (suits_pair.mp ((suits_list_iff.mp hkeywords e hmem).after hl)).2
    exact newList (suits_list_iff.mpr (by simpa using hv))
  · exact suits_toArray.mpr (suits_append.mpr ⟨hargs.after hl, hpairs⟩)

theorem callHost (f : HostFunction) (hargs : Suits h args) (hkeywords : Suits h keywords) :
    Safe l h (Host.call ev f args keywords) := by
  cases f with
  | url => exact delivered url_suits
  | boom => exact delivered (fails_suits _ _)
  | boomEmpty => exact delivered (fails_suits _ _)
  | boomPad => exact delivered (fails_suits _ _)
  | echo => exact echo hargs hkeywords
  | next => exact callNext hev hargs

end Methods

end Safe

@[simp] theorem suits_closure {c : Closure} :
    Suits h c ↔ Suits h c.defaults ∧ Suits h c.keywordDefaults := by
  unfold Suits
  change (∀ x ∈ refs c.defaults ++ refs c.keywordDefaults, _) ↔ _
  simp only [List.mem_append, or_imp, forall_and]

namespace Safe

variable {c : Closure} {bound spare : Bindings} {taken : Bindings × Bindings}

theorem bindKeyword_suits {key : String} (hbound : Suits h bound) (hspare : Suits h spare)
    (hv : Suits h v) : Delivers (Suits h) (c.bindKeyword bound spare key v) := by
  unfold Closure.bindKeyword
  split
  · split
    · exact .error
    · simp_all [Delivers]
  · have hgiven : Suits h (key, v) := suits_pair.mpr ⟨suits_string key, hv⟩
    have hspares := suits_append.mpr ⟨hspare, suits_cons.mpr ⟨hgiven, suits_nil⟩⟩
    exact .pure (suits_pair.mpr ⟨hbound, hspares⟩)

theorem takeKeyword_suits {given : String × Value} (htaken : Suits h taken) (hg : Suits h given) :
    Delivers (Suits h) (c.takeKeyword keywords taken given) := by
  intro taken' ht
  obtain ⟨next, hnext, ht⟩ := Except.ok_of_bind ht
  have hfits := bindKeyword_suits (suits_pair.mp htaken).1 (suits_pair.mp htaken).2
    (suits_pair.mp hg).2 _ hnext
  split at ht
  · cases ht
  · cases ht
    exact hfits

theorem takeKeywords_suits {given : List (String × Value)} (htaken : Suits h taken)
    (hg : Suits h given) : Delivers (Suits h) (given.foldlM (c.takeKeyword keywords) taken) := by
  induction given generalizing taken with
  | nil => exact .pure htaken
  | cons e given ih =>
    obtain ⟨he, hgiven⟩ := suits_cons.mp hg
    intro taken' ht
    rw [List.foldlM_cons] at ht
    obtain ⟨next, hnext, ht⟩ := Except.ok_of_bind ht
    exact ih (takeKeyword_suits htaken he _ hnext) hgiven _ ht

theorem fillDefaults_suits {kind : String} {names : List String} {defaults : Bindings}
    (hd : Suits h defaults) (hbound : Suits h bound) :
    Delivers (Suits h) (c.fillDefaults kind names defaults bound) := by
  unfold Closure.fillDefaults
  dsimp only
  split
  · refine .pure (suits_append.mpr ⟨hbound, suits_list_iff.mpr fun e he => ?_⟩)
    obtain ⟨p, -, hp⟩ := List.mem_filterMap.mp he
    obtain ⟨w, hw, rfl⟩ := Option.map_eq_some_iff.mp hp
    exact suits_pair.mpr ⟨suits_string p, lookup_suits hd hw⟩
  · exact .error

theorem inOrder_suits (hbound : Suits h bound) : Suits h (c.inOrder bound) := by
  refine suits_list_iff.mpr fun e he => ?_
  obtain ⟨p, -, hp⟩ := List.mem_filterMap.mp he
  obtain ⟨w, hw, rfl⟩ := Option.map_eq_some_iff.mp hp
  exact suits_pair.mpr ⟨suits_string p, lookup_suits hbound hw⟩

theorem suits_zip {names : List String} {vs : List Value} (hv : Suits h vs) :
    Suits h (names.zip vs) :=
  suits_list_iff.mpr fun e he =>
    suits_pair.mpr ⟨suits_string e.1, suits_list_iff.mp hv e.2 (List.of_mem_zip he).2⟩

theorem bindArguments_suits {call : Closure.Call} (hc : Suits h c) (hargs : Suits h args)
    (hkeywords : Suits h keywords) (hr : c.bind args keywords = .ok call) :
    Suits h call.bound ∧ Suits h call.rest ∧ Suits h call.spare := by
  obtain ⟨hdefaults, hnamed⟩ := suits_closure.mp hc
  obtain ⟨taken, htaken, hr⟩ := Except.ok_of_bind hr
  have hstart : Suits h (c.places.zip args, ([] : Bindings)) :=
    suits_pair.mpr ⟨suits_zip hargs, suits_nil⟩
  obtain ⟨named, spare⟩ := taken
  obtain ⟨hbound, hspare⟩ := suits_pair.mp (takeKeywords_suits hstart hkeywords _ htaken)
  dsimp only at hr
  split at hr
  · cases hr
  · obtain ⟨bound, hfill, hr⟩ := Except.ok_of_bind hr
    obtain ⟨bound', hfill', hr⟩ := Except.ok_of_bind hr
    cases hr
    have hplaces : Suits h c.placeDefaults := suits_zip hdefaults
    have hbound' := fillDefaults_suits hplaces hbound _ hfill
    refine ⟨inOrder_suits (fillDefaults_suits hnamed hbound' _ hfill'), ?_, hspare⟩
    exact suits_of_sublist hargs (List.drop_sublist _ _)

theorem frameOf {c : Closure} {call : Closure.Call} (hbound : Suits h call.bound)
    (hrest : Suits h call.rest) (hspare : Suits h call.spare) : Safe l h (c.frameOf call) := by
  refine bind (mapM fun {h' p} hl _ => ?_) fun {h' spare} hl hnew => pure ?_
  · refine bind (newDict (suits_toArray.mpr (suits_list_iff.mpr fun e he => ?_))) fun _ hd =>
      pure (suits_pair.mpr ⟨suits_string p, hd⟩)
    obtain ⟨given, hgiven, rfl⟩ := List.mem_map.mp he
    have hv := (suits_pair.mp (suits_list_iff.mp (hspare.after hl) given hgiven)).2
    exact suits_pair.mpr ⟨suits_strValue _, hv⟩
  · have hrest' : Suits h' (c.parameters.rest.toList.map fun p => (p, Value.tuple call.rest)) := by
      refine suits_list_iff.mpr fun e he => ?_
      obtain ⟨p, -, rfl⟩ := List.mem_map.mp he
      exact suits_pair.mpr ⟨suits_string p, (suits_tupleValue _).mpr (hrest.after hl)⟩
    have hall := suits_append.mpr ⟨suits_append.mpr ⟨hbound.after hl, hrest'⟩, hnew⟩
    refine suits_list_iff.mpr fun e he => ?_
    obtain ⟨binding, hbinding, rfl⟩ := List.mem_map.mp he
    exact suits_pair.mpr ⟨suits_variable _, (suits_pair.mp (suits_list_iff.mp hall _ hbinding)).2⟩

theorem callClosure {ev : Evaluator} (hev : ev.IsSafe l) {c : Closure} (hc : Suits h c)
    (hargs : Suits h args) (hkeywords : Suits h keywords) : Safe l h (c.call ev args keywords) := by
  refine compute fun {call} hcall => ?_
  obtain ⟨hbound, hrest, hspare⟩ := bindArguments_suits hc hargs hkeywords hcall
  refine bind (frameOf hbound hrest hspare) fun _ hframe => ?_
  exact bind (newFrame fun hx => lookup_suits hframe hx) fun _ _ => nested 1 hev.eval

end Safe

end Stencil
