import Stencil.Proofs.SafeRuns
import Stencil.Value.Attribute
import Stencil.Value.Operate

/-!
# Operations on values are safe

Operators, subscripts and attributes deliver parts of what they are given, or new containers of
such parts.
-/

namespace Stencil

theorem Except.ok_of_bind {ε α β : Type} {x : Except ε α} {f : α → Except ε β} {b : β}
    (h : x >>= f = .ok b) : ∃ a, x = .ok a ∧ f a = .ok b := by
  cases x with
  | ok a => exact ⟨a, rfl, h⟩
  | error e => cases h

theorem suits_getElem? {α : Type} [Refers α] {h : Heap} {as : Array α} {a : α} {i : Nat}
    (has : Suits h as) (ha : as[i]? = some a) : Suits h a :=
  suits_array_iff.mp has a (Array.mem_of_getElem? ha)

variable {l : Licence} {h h₀ : Heap} {entries more : Array (Value × Value)} {k v w : Value}

theorem lookupKey_suits (he : Suits h entries) {o : Option Value}
    (hr : Value.lookupKey? h₀ entries k = .ok o) : Suits h o := by
  unfold Value.lookupKey? at hr
  obtain ⟨found, -, hr⟩ := Except.ok_of_bind hr
  cases found with
  | none =>
    cases hr
    exact suits_none
  | some i =>
    cases hr
    cases hi : entries[i]? with
    | none => exact suits_none
    | some e => exact suits_some.mpr (suits_pair.mp (suits_getElem? he hi)).2

theorem putEntry_suits (he : Suits h entries) (hk : Suits h k) (hv : Suits h v)
    (hr : Value.putEntry h₀ entries k v = .ok more) : Suits h more := by
  unfold Value.putEntry at hr
  obtain ⟨found, -, hr⟩ := Except.ok_of_bind hr
  cases found with
  | none =>
    cases hr
    exact suits_push.mpr ⟨he, suits_pair.mpr ⟨hk, hv⟩⟩
  | some i =>
    cases hr
    refine suits_array_iff.mpr fun e hmem => ?_
    obtain ⟨j, hj⟩ := Array.getElem?_of_mem hmem
    rw [Array.getElem?_modify] at hj
    split at hj
    · obtain ⟨e', he', rfl⟩ := Option.map_eq_some_iff.mp hj
      exact suits_pair.mpr ⟨(suits_pair.mp (suits_getElem? he he')).1, hv⟩
    · exact suits_getElem? he hj

theorem putEntries_suits {new : Array (Value × Value)} (he : Suits h entries) (hm : Suits h more)
    (hr : Value.putEntries h₀ entries more = .ok new) : Suits h new := by
  unfold Value.putEntries at hr
  rw [← Array.foldlM_toList] at hr
  replace hm : Suits h more.toList := hm
  generalize more.toList = es at hr hm
  induction es generalizing entries with
  | nil =>
    cases hr
    exact he
  | cons e es ih =>
    rw [List.foldlM_cons] at hr
    obtain ⟨next, hput, hr⟩ := Except.ok_of_bind hr
    obtain ⟨he₁, hes⟩ := suits_cons.mp hm
    exact ih (putEntry_suits he (suits_pair.mp he₁).1 (suits_pair.mp he₁).2 hput) hr hes

theorem suits_eraseIdx {α : Type} [Refers α] {as : Array α} (has : Suits h as) (i : Nat) :
    Suits h (as.eraseIdxIfInBounds i) := by
  refine suits_array_iff.mpr fun a ha => suits_array_iff.mp has a ?_
  rw [Array.eraseIdxIfInBounds] at ha
  split at ha
  · exact Array.mem_of_mem_eraseIdx ha
  · exact ha

theorem eraseEntry_suits (he : Suits h entries) {o : Option (Value × Array (Value × Value))}
    (hr : Value.eraseEntry h₀ entries k = .ok o) : Suits h o := by
  unfold Value.eraseEntry at hr
  obtain ⟨found, -, hr⟩ := Except.ok_of_bind hr
  cases found with
  | none =>
    cases hr
    exact suits_none
  | some i =>
    cases hr
    cases hi : entries[i]? with
    | none => exact suits_none
    | some e =>
      exact suits_some.mpr (suits_pair.mpr
        ⟨(suits_pair.mp (suits_getElem? he hi)).2, suits_eraseIdx he i⟩)

theorem addItem_suits {items new : List Value} (hi : Suits h items) (hv : Suits h v)
    (hr : Value.addItem h₀ items v = .ok new) : Suits h new := by
  unfold Value.addItem at hr
  obtain ⟨found, -, hr⟩ := Except.ok_of_bind hr
  cases found with
  | none =>
    cases hr
    exact suits_append.mpr ⟨hi, suits_cons.mpr ⟨hv, suits_nil⟩⟩
  | some i =>
    cases hr
    exact hi

theorem addItems_suits {items vs new : List Value} (hi : Suits h items) (hv : Suits h vs)
    (hr : vs.foldlM (Value.addItem h₀) items = .ok new) : Suits h new := by
  induction vs generalizing items with
  | nil =>
    cases hr
    exact hi
  | cons v vs ih =>
    rw [List.foldlM_cons] at hr
    obtain ⟨next, hadd, hr⟩ := Except.ok_of_bind hr
    obtain ⟨hv₁, hvs⟩ := suits_cons.mp hv
    exact ih (addItem_suits hi hv₁ hadd) hvs hr

namespace SetTable

def HoldsOnly (P : UInt64 × Value → Prop) (t : SetTable) : Prop := ∀ e ∈ t.content, P e

variable {P : UInt64 × Value → Prop} {t : SetTable}

theorem mem_content {e : UInt64 × Value} : e ∈ t.content ↔ some e ∈ t.places := by
  simp [content]

theorem holdsOnly_ofSize (n : Nat) : HoldsOnly P (ofSize n) := by
  intro e he
  rw [mem_content] at he
  cases Array.eq_of_mem_replicate he

theorem HoldsOnly.place (ht : HoldsOnly P t) {e : UInt64 × Value} (he : P e) :
    HoldsOnly P (t.place e) := by
  intro e' he'
  rw [mem_content] at he'
  rcases Array.mem_or_eq_of_mem_setIfInBounds he' with hold | hnew
  · exact ht e' (mem_content.mpr hold)
  · cases hnew
    exact he

theorem HoldsOnly.foldl {f : SetTable → UInt64 × Value → SetTable}
    (hf : ∀ {t e}, HoldsOnly P t → P e → HoldsOnly P (f t e)) {es : List (UInt64 × Value)}
    (ht : HoldsOnly P t) (hes : ∀ e ∈ es, P e) : HoldsOnly P (es.foldl f t) := by
  induction es generalizing t with
  | nil => exact ht
  | cons e es ih =>
    obtain ⟨he, hes⟩ := List.forall_mem_cons.mp hes
    exact ih (hf ht he) hes

theorem HoldsOnly.add (ht : HoldsOnly P t) {e : UInt64 × Value} (he : P e) :
    HoldsOnly P (t.add e) := by
  have hplace := ht.place he
  unfold SetTable.add
  dsimp only
  split
  · exact hplace
  · exact .foldl (fun ht he => ht.place he) (holdsOnly_ofSize _) hplace

theorem HoldsOnly.ofList {es : List (UInt64 × Value)} (hes : ∀ e ∈ es, P e) :
    HoldsOnly P (ofList es) := .foldl (fun ht he => ht.add he) (holdsOnly_ofSize _) hes

theorem HoldsOnly.copied (ht : HoldsOnly P t) : HoldsOnly P t.copied := by
  have hnew : HoldsOnly P (if t.used * 5 < (leastSize - 1) * 3 then empty
      else ofSize (sizeAbove (t.used * 2))) := by
    split
    · exact holdsOnly_ofSize _
    · exact holdsOnly_ofSize _
  unfold SetTable.copied
  dsimp only
  generalize (if t.used * 5 < (leastSize - 1) * 3 then empty
    else ofSize (sizeAbove (t.used * 2))) = new at hnew ⊢
  split
  · exact ht
  · exact .foldl (fun ht he => ht.place he) hnew ht

theorem HoldsOnly.items {t : SetTable} (ht : HoldsOnly (fun e => Suits h e.2) t) :
    Suits h t.items := by
  refine suits_list_iff.mpr fun v hv => ?_
  obtain ⟨e, he, rfl⟩ := List.mem_map.mp hv
  exact ht e he

end SetTable

theorem hashed_suits {items : List Value} {es : List (UInt64 × Value)} (hi : Suits h items)
    (hr : Value.hashed? items = some es) : ∀ e ∈ es, Suits h e.2 := by
  unfold Value.hashed? at hr
  induction items generalizing es with
  | nil =>
    cases hr
    exact fun e he => nomatch he
  | cons v items ih =>
    rw [List.mapM_cons] at hr
    obtain ⟨e, he, hr⟩ := Option.bind_eq_some_iff.mp hr
    obtain ⟨rest, hrest, hr⟩ := Option.bind_eq_some_iff.mp hr
    cases hr
    obtain ⟨hash, -, rfl⟩ := Option.map_eq_some_iff.mp he
    obtain ⟨hv, hitems⟩ := suits_cons.mp hi
    exact List.forall_mem_cons.mpr ⟨hv, ih hitems hrest⟩

theorem arrange_suits {items : List Value} (hi : Suits h items) :
    Suits h (Value.arrange items) := by
  unfold Value.arrange
  split
  · rename_i es hes
    exact SetTable.HoldsOnly.items (.ofList (hashed_suits hi hes))
  · exact hi

theorem arrangeConstants_suits {items : List Value} (hi : Suits h items) :
    Suits h (Value.arrangeConstants items) := by
  unfold Value.arrangeConstants
  split
  · rename_i es hes
    have hfirst := SetTable.HoldsOnly.ofList (hashed_suits hi hes)
    exact SetTable.HoldsOnly.items (SetTable.HoldsOnly.ofList hfirst).copied
  · exact hi

theorem setOf_suits {items : List Value} {new : Array Value} (hi : Suits h items)
    (hr : Value.setOf h₀ items = .ok new) : Suits h new := by
  unfold Value.setOf at hr
  obtain ⟨all, hall, hr⟩ := Except.ok_of_bind hr
  cases hr
  exact suits_toArray.mpr (arrange_suits (addItems_suits suits_nil hi hall))

theorem setLike_suits (hs : h.IsSound) {items : List Value}
    (hr : Value.setLike? h v = some items) : Suits h items := by
  unfold Value.setLike? at hr
  split at hr
  · cases hr
    exact hs.setItems _
  · cases hr
    refine suits_list_iff.mpr fun w hw => ?_
    obtain ⟨e, he, rfl⟩ := List.mem_map.mp hw
    exact (suits_pair.mp (suits_list_iff.mp (hs.dictEntries _) e he)).1
  · cases hr
    refine suits_list_iff.mpr fun w hw => ?_
    obtain ⟨⟨key, item⟩, he, rfl⟩ := List.mem_map.mp hw
    obtain ⟨hkey, hitem⟩ := suits_pair.mp (suits_list_iff.mp (hs.dictEntries _) _ he)
    exact (suits_tupleValue _).mpr (suits_cons.mpr ⟨hkey, suits_cons.mpr ⟨hitem, suits_nil⟩⟩)
  · cases hr

theorem suits_of_sublist {α : Type} [Refers α] {as bs : List α} (has : Suits h as)
    (hsub : bs.Sublist as) : Suits h bs :=
  suits_list_iff.mpr fun b hb => suits_list_iff.mp has b (hsub.subset hb)

theorem filterM_sublist {α ε : Type} {p : α → Except ε Bool} {as bs : List α}
    (hr : as.filterM p = .ok bs) : bs.Sublist as := by
  have haux (as acc : List α) {r : List α} (hr : as.filterAuxM p acc = .ok r) :
      ∃ bs : List α, bs.Sublist as ∧ r = bs.reverse ++ acc := by
    induction as generalizing acc with
    | nil =>
      cases hr
      exact ⟨[], .slnil, rfl⟩
    | cons a as ih =>
      obtain ⟨b, -, hr⟩ := Except.ok_of_bind hr
      obtain ⟨bs, hsub, rfl⟩ := ih _ hr
      cases b with
      | false => exact ⟨bs, hsub.cons a, rfl⟩
      | true => exact ⟨a :: bs, hsub.cons_cons a, by simp⟩
  obtain ⟨r, haux', hr⟩ := Except.ok_of_bind hr
  obtain ⟨cs, hsub, rfl⟩ := haux as [] haux'
  cases hr
  rwa [List.append_nil, List.reverse_reverse]

theorem keep_suits {among : Bool} {zs vs new : List Value} (hv : Suits h vs)
    (hr : Value.keep h₀ among zs vs = .ok new) : Suits h new :=
  suits_of_sublist hv (filterM_sublist hr)

theorem combineItems_suits {op : BinaryOp} {xs ys new : List Value} {f : Fault} (hx : Suits h xs)
    (hy : Suits h ys) (hr : Value.combineItems h₀ op xs ys f = .ok new) : Suits h new := by
  unfold Value.combineItems at hr
  split at hr
  · exact keep_suits hx hr
  · exact keep_suits hx hr
  · cases hr
    exact suits_append.mpr ⟨hx, hy⟩
  · obtain ⟨left, hleft, hr⟩ := Except.ok_of_bind hr
    obtain ⟨right, hright, hr⟩ := Except.ok_of_bind hr
    cases hr
    exact suits_append.mpr ⟨keep_suits hx hleft, keep_suits hy hright⟩
  · cases hr

theorem select_suits {items : Array Value} {index : Value} {wording : Value.Wording}
    {r : Value ⊕ List Value} (hi : Suits h items)
    (hr : Value.select wording items index = .ok r) : Suits h r := by
  unfold Value.select at hr
  split at hr
  · obtain ⟨c, -, hr⟩ := Except.ok_of_bind hr
    cases hr
    refine suits_inr.mpr (suits_list_iff.mpr fun v hv => ?_)
    obtain ⟨i, -, hv⟩ := List.mem_filterMap.mp hv
    exact suits_getElem? hi hv
  · obtain ⟨i, -, hr⟩ := Except.ok_of_bind hr
    cases hitem : items[i]? with
    | none =>
      rw [hitem] at hr
      cases hr
    | some v =>
      rw [hitem] at hr
      cases hr
      exact suits_inl.mpr (suits_getElem? hi hitem)

theorem selectRange_suits {a b c : Int} {index : Value}
    (hr : Value.selectRange a b c index = .ok v) : Suits h v := by
  unfold Value.selectRange at hr
  dsimp only at hr
  split at hr
  · obtain ⟨cut, -, hr⟩ := Except.ok_of_bind hr
    cases hr
    exact suits_of_isEmpty rfl
  · split at hr
    · cases hr
    · -- the index is counted from either end
      split at hr
      all_goals
        split at hr <;> cases hr
        exact suits_intValue _

theorem missingKey_fails {h h₀ : Heap} (hr : Value.missingKey h₀ k = .ok v) : Suits h v := by
  unfold Value.missingKey at hr
  split at hr <;> cases hr

namespace Safe

theorem subscript {v index : Value} (hv : Suits h v) (hindex : Suits h index) :
    Safe l h (Value.subscript v index) := by
  refine .get fun hs => ?_
  split
  · refine compute fun {r} hr => ?_
    cases r with
    | inl a => exact pure (select_suits (hs.listItems _) hr)
    | inr items => exact newList (select_suits (hs.listItems _) hr)
  · refine compute fun {r} hr => ?_
    have hfits := select_suits ((suits_tupleValue _).mp hv) hr
    cases r with
    | inl a => exact pure hfits
    | inr items => exact pure ((suits_tupleValue _).mpr hfits)
  · refine compute fun {r} _ => ?_
    cases r with
    | inl c => exact pure (suits_strValue _)
    | inr cs => exact pure (suits_strValue _)
  · refine compute fun {r} _ => ?_
    cases r with
    | inl c => exact pure (suits_intValue _)
    | inr cs => exact pure (suits_bytesValue _)
  · exact ofExcept selectRange_suits
  · refine compute fun {o} ho => ?_
    cases o with
    | none => exact ofExcept missingKey_fails
    | some w => exact pure (suits_some.mp (lookupKey_suits (hs.dictEntries _) ho))
  · refine compute fun {o} ho => ?_
    cases o with
    | none => exact ofExcept missingKey_fails
    | some w => exact pure (suits_some.mp (lookupKey_suits (hs.dictEntries _) ho))
  · exact pure suits_undefinedValue
  · exact pure hindex
  · exact pure hindex
  · exact fault _

end Safe

theorem loopProperty_suits (hs : h.IsSound) {r : Ref} (ho : h.Offers .loop r) {name : String}
    (hr : (h.loopState r).property? h name = some (.ok v)) : Suits h v := by
  have hstate : Suits h (h.loopState r) := hs.cells ho.loopState
  have hitem {i : Nat} (hr : (h.loopState r).itemAt h i = .ok v) : Suits h v := by
    unfold LoopState.itemAt at hr
    split at hr
    · rename_i w hw
      cases hr
      exact suits_getElem? (hs.listItems _) hw
    · cases hr
  unfold LoopState.property? at hr
  dsimp only at hr
  split at hr
  all_goals try (cases hr; exact suits_of_isEmpty rfl)
  · have hr := Option.some.inj hr
    unfold LoopState.previous at hr
    split at hr
    · cases hr
      exact suits_noneValue
    · exact hitem hr
  · have hr := Option.some.inj hr
    unfold LoopState.next at hr
    split at hr
    · cases hr
      exact suits_noneValue
    · exact hitem hr
  · cases hr
    unfold LoopState.parentValue
    split
    · exact suits_noneValue
    · rename_i r' hparent
      refine (suits_loopValue r').mpr (hstate (.loop, r') (List.mem_cons_of_mem _ ?_))
      rw [hparent]
      exact List.mem_singleton_self _
  · cases hr
    exact (suits_listValue _).mpr (hstate (.list, _) List.mem_cons_self)
  · cases hr

theorem lookup_suits {κ : Type} [BEq κ] [Refers κ] {fields : List (κ × Value)}
    (hf : Suits h fields) {name : κ} (hr : fields.lookup name = some v) : Suits h v := by
  induction fields with
  | nil => cases hr
  | cons field fields ih =>
    obtain ⟨hfield, hfields⟩ := suits_cons.mp hf
    rw [List.lookup_cons] at hr
    split at hr
    · cases hr
      exact (suits_pair.mp hfield).2
    · exact ih hfields hr

theorem property_suits (hs : h.IsSound) (hv : Suits h v) {name : String}
    (hr : Value.property? h v name = some (.ok w)) : Suits h w := by
  unfold Value.property? at hr
  split at hr
  all_goals try (cases hr; exact suits_of_isEmpty rfl)
  · cases hr
    exact (suits_sliceValue ..).mp hv |>.1
  · cases hr
    exact (suits_sliceValue ..).mp hv |>.2.1
  · cases hr
    exact (suits_sliceValue ..).mp hv |>.2.2
  · obtain ⟨w', hw', heq⟩ := Option.map_eq_some_iff.mp hr
    cases heq
    exact lookup_suits (hs.fields _) hw'
  · cases hr
    exact hv
  · exact loopProperty_suits hs ((suits_loopValue _).mp hv) hr
  · split at hr
    · cases hr
    · cases hr
      exact suits_undefinedValue
  · cases hr

theorem ownAttribute_suits (hs : h.IsSound) (hv : Suits h v) {name : String}
    (hr : Value.ownAttribute h v name = .ok w) : Suits h w := by
  unfold Value.ownAttribute at hr
  split at hr
  · rename_i hproperty
    rw [hr] at hproperty
    exact property_suits hs hv hproperty
  · split at hr
    · cases hr
      exact (suits_methodValue v name).mpr hv
    · split at hr
      · split at hr
        · cases hr
          exact suits_unboundMethodValue _ _
        · cases hr
      · cases hr

namespace Safe

variable {name : String}

theorem itemInstead (hv : Suits h v) (f : Fault) : Safe l h (Value.itemInstead v name f) := by
  refine tryCatch (subscript hv (suits_strValue name)) fun halt hhalt _ => ?_
  cases halt with
  | fault g =>
    dsimp only
    split
    · exact fault f
    · exact fault g
  | _ => exact throw hhalt

theorem member (hv : Suits h v) : Safe l h (Value.member v name) := by
  refine .get fun hs => ?_
  split
  · refine compute fun {o} ho => ?_
    cases o with
    | some w => exact pure (suits_some.mp (lookupKey_suits (hs.dictEntries _) ho))
    | none =>
      dsimp only
      split
      · exact pure (ownAttribute_suits hs hv ‹_›)
      · exact fault _
  · split
    · exact pure (ownAttribute_suits hs hv ‹_›)
    · split
      · exact itemInstead hv _
      · exact fault _

theorem memberLenient (hv : Suits h v) : Safe l h (Value.memberLenient v name) := by
  unfold Value.memberLenient
  split
  · exact pure suits_undefinedValue
  · exact pure suits_undefinedValue
  · refine tryCatch (member hv) fun halt hhalt _ => ?_
    cases halt with
    | fault f =>
      dsimp only
      split
      · exact pure suits_undefinedValue
      · exact fault f
    | _ => exact throw hhalt

theorem joined (hv : Suits h v) (hw : Suits h w) : Safe l h (Value.joined v w) := by
  unfold Value.joined
  split
  · exact pure (suits_strValue _)
  · exact fault _
  · exact pure (suits_bytesValue _)
  · exact fault _
  · exact pure (by simp_all)
  · exact fault _
  · exact .get fun hs => newList (suits_appendArray.mpr ⟨hs.listItems _, hs.listItems _⟩)
  · exact fault _
  · exact fault _

theorem suits_repeatList {items : List Value} (hi : Suits h items) (n : Nat) :
    Suits h (Value.repeatList n items) := by
  refine suits_list_iff.mpr fun v hv => ?_
  obtain ⟨copy, hcopy, hv⟩ := List.mem_flatten.mp hv
  rw [List.eq_of_mem_replicate hcopy] at hv
  exact suits_list_iff.mp hi v hv

theorem repeated (hv : Suits h v) (n : Int) : Safe l h (Value.repeated v n) := by
  unfold Value.repeated
  split
  · exact compute fun _ => pure (suits_strValue _)
  · exact compute fun _ => pure (suits_bytesValue _)
  · have hitems := (suits_tupleValue _).mp hv
    exact compute fun _ => pure ((suits_tupleValue _).mpr (suits_repeatList hitems _))
  · exact .get fun hs => compute fun _ =>
      newList (suits_toArray.mpr (suits_repeatList (suits_toList.mpr (hs.listItems _)) _))
  · exact pure hv

theorem multiplied (hv : Suits h v) (hw : Suits h w) : Safe l h (Value.multiplied v w) := by
  unfold Value.multiplied
  dsimp only
  split
  · split
    · exact repeated hv _
    · exact fault _
  · split
    · split
      · exact repeated hw _
      · exact fault _
    · exact fault _

theorem combineSets (op : BinaryOp) : Safe l h (Value.combineSets op v w) := by
  refine .get fun hs => ?_
  split
  · rename_i hxs hys
    refine compute fun hitems => compute fun hset => newSet ?_
    exact setOf_suits (combineItems_suits (setLike_suits hs hxs) (setLike_suits hs hys) hitems) hset
  · exact fault _

theorem combined (op : BinaryOp) : Safe l h (Value.combined op v w) := by
  unfold Value.combined
  split
  · exact .get fun hs => compute fun hput =>
      newDict (putEntries_suits (hs.dictEntries _) (hs.dictEntries _) hput)
  · exact combineSets op

theorem operateOther (op : BinaryOp) (hv : Suits h v) (hw : Suits h w) :
    Safe l h (Value.operateOther op v w) := by
  unfold Value.operateOther
  split
  · exact joined hv hw
  · exact multiplied hv hw
  · exact .get fun _ => compute fun _ => pure (suits_strValue _)
  · exact combined op

theorem suits_number (n : Num) : Suits h n.toValue := by
  cases n <;> exact suits_of_isEmpty rfl

theorem operateNumbers (op : BinaryOp) (hv : Suits h v) (hw : Suits h w) :
    Safe l h (Value.operateNumbers op v w) := by
  unfold Value.operateNumbers
  split
  · split
    · exact compute fun _ => pure (suits_number _)
    · exact fault _
  · exact operateOther op hv hw

theorem operate (op : BinaryOp) (hv : Suits h v) (hw : Suits h w) :
    Safe l h (Value.operate op v w) := by
  unfold Value.operate
  split
  · exact pure (suits_boolValue _)
  · exact pure (suits_boolValue _)
  · exact pure (suits_boolValue _)
  · exact operateNumbers op hv hw

theorem operateUnary (op : UnaryOp) : Safe l h (Value.operateUnary op v) := by
  unfold Value.operateUnary
  dsimp only
  split
  · exact .get fun _ => pure (suits_boolValue _)
  · exact pure (suits_intValue _)
  · exact pure (suits_floatValue _)
  · exact pure (suits_complexValue _ _)
  · exact pure (suits_number _)
  · exact pure (suits_intValue _)
  · exact fault _

end Safe

end Stencil
