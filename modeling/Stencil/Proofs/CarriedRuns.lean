import Stencil.Proofs.CarriedItems
import Stencil.Proofs.CarriedTexts

/-!
# Evaluations in renamed heaps

Two evaluations run side by side, the second in a heap that carries all the first one has.
`Carried` says that they end alike: the second delivers what the first one delivers, renamed, or
halts where it does. Only where the second heap may have variables that the first one lacks, the
first run may be given up at a variable without a value.
-/

namespace Stencil

def Fault.IsUnassigned (f : Fault) : Prop := f.kind = .name ∨ f.kind = .unboundLocal

namespace Renaming

variable (ρ : Renaming) {α β γ δ : Type}

/-- Two outcomes that are the same up to renaming, where frames have grown from `before`; `f`
renames what is delivered. -/
inductive Ends (f : α → β) (before : Array Frame) : Outcome α → Outcome β → Prop
  | ok {a : α} {h h' : Heap} (hc : ρ.Carries h h') (hg : Grows before h.frames) :
      Ends f before (.ok a h) (.ok (f a) h')
  | error {halt : Halt} {h h' : Heap} (hc : ρ.Carries h h') (hg : Grows before h.frames) :
      Ends f before (.error halt h) (.error halt h')
  | lost {fault : Fault} {h : Heap} {r : Outcome β} (hinexact : ¬ ρ.exact)
      (hfault : fault.IsUnassigned) : Ends f before (.error (.fault fault) h) r

/-- Wherever the second heap carries the first, the two evaluations end alike. -/
def Carried (f : α → β) (x : Eval α) (y : Eval β) : Prop :=
  ∀ n h h', ρ.Carries h h' → ρ.Ends f h.frames (x.run n h) (y.run n h')

variable {ρ} {f : α → β} {g : γ → δ} {x : Eval α} {y : Eval β}

theorem Ends.after {before before' : Array Frame} {r : Outcome α} {r' : Outcome β}
    (h : ρ.Ends f before' r r') (hg : Grows before before') : ρ.Ends f before r r' := by
  cases h with
  | ok hc hg' => exact .ok hc (hg.trans hg')
  | error hc hg' => exact .error hc (hg.trans hg')
  | lost hinexact hfault => exact .lost hinexact hfault

theorem var_eq {r : Ref} (hplace : ρ.place r = id) (x : Variable) : ρ.var r x = x := by
  cases x with
  | own name => rfl
  | ofLoop position name => rw [var, hplace, id]

theorem getD_push (frames : Array Frame) (b : Frame) (r : Ref) :
    (frames.push b).getD r [] = if r = frames.size then b else frames.getD r [] := by
  rw [Array.getD_eq_getD_getElem?, Array.getElem?_push, Array.getD_eq_getD_getElem?]
  split <;> rfl

theorem get?_modify (frames : Array Frame) (r r' : Ref) (x x' : Variable) (v : Value) :
    ((frames.modify r (·.put x v)).getD r' []).get? x' =
      if (r = r' ∧ r < frames.size) ∧ x' = x then some v else (frames.getD r' []).get? x' := by
  rw [Array.getD_eq_getD_getElem?, Array.getElem?_modify, Array.getD_eq_getD_getElem?]
  by_cases hr : r = r'
  · rw [if_pos hr]
    by_cases hlt : r' < frames.size
    · rw [Array.getElem?_eq_getElem hlt]
      change (frames[r'].put x v).get? x' = if _ then some v else frames[r'].get? x'
      rw [BindingsOf.get?_put]
      by_cases hx : x' = x
      · rw [if_pos hx, if_pos ⟨⟨hr, hr ▸ hlt⟩, hx⟩]
      · rw [if_neg hx, if_neg (hx ∘ And.right)]
    · rw [Array.getElem?_eq_none (Nat.le_of_not_lt hlt), if_neg fun h => hlt (hr ▸ h.1.2)]
      rfl
  · rw [if_neg hr, if_neg fun h => hr h.1.1]

namespace Carries

variable {h h' : Heap} (hc : ρ.Carries h h')

include hc

theorem frame_size : ρ.frame h.frames.size = h'.frames.size := hc.nextFrame 0

theorem frame_lt_iff {r : Ref} : ρ.frame r < h'.frames.size ↔ r < h.frames.size := by
  constructor
  · intro hlt
    by_cases hr : r < h.frames.size
    · exact hr
    · have hnext := hc.nextFrame (r - h.frames.size)
      rw [Nat.add_sub_cancel' (Nat.le_of_not_lt hr)] at hnext
      exact absurd (hnext ▸ hlt) (Nat.not_lt.mpr (Nat.le_add_right ..))
  · exact hc.framed r

theorem pushFrame (b : Frame) : ρ.Carries { h with frames := h.frames.push b }
    { h' with frames := h'.frames.push (ρ.bindings b) } := by
  have hsize {r : Ref} : ρ.frame r = h'.frames.size ↔ r = h.frames.size :=
    ⟨fun heq => ρ.frame_injective (heq.trans hc.frame_size.symm), fun heq => heq ▸ hc.frame_size⟩
  have hvar (x : Variable) : ρ.var h.frames.size x = x := var_eq (hc.nextPlace 0) x
  refine { hc with
    assigned := fun r x v hx => ?_
    unassigned := fun hexact r x hx => ?_
    framed := fun r hr => ?_
    nextFrame := fun i => ?_
    nextPlace := fun i => ?_ }
  · dsimp only at hx ⊢
    rw [getD_push] at hx ⊢
    by_cases hr : r = h.frames.size
    · rw [if_pos hr] at hx
      rw [if_pos (hsize.mpr hr), hr, hvar, ρ.bindings_get?, hx]
      rfl
    · rw [if_neg hr] at hx
      rw [if_neg (hr ∘ hsize.mp)]
      exact hc.assigned r x v hx
  · dsimp only at hx ⊢
    rw [getD_push] at hx ⊢
    by_cases hr : r = h.frames.size
    · rw [if_pos hr] at hx
      rw [if_pos (hsize.mpr hr), hr, hvar, ρ.bindings_get?, hx]
      rfl
    · rw [if_neg hr] at hx
      rw [if_neg (hr ∘ hsize.mp)]
      exact hc.unassigned hexact r x hx
  · dsimp only at hr ⊢
    rw [Array.size_push] at hr ⊢
    rcases Nat.lt_succ_iff_lt_or_eq.mp hr with hlt | heq
    · exact Nat.lt_succ_of_lt (hc.framed r hlt)
    · exact Nat.lt_succ_of_le (Nat.le_of_eq (hsize.mpr heq))
  · have hnext := hc.nextFrame (1 + i)
    dsimp only
    rw [Array.size_push, Array.size_push, Nat.add_assoc, Nat.add_assoc, hnext]
  · have hnext := hc.nextPlace (1 + i)
    dsimp only
    rw [Array.size_push, Nat.add_assoc, hnext]

theorem putVariable (r : Ref) (x : Variable) (v : Value) : ρ.Carries
    { h with frames := h.frames.modify r (·.put x v) }
    { h' with frames := h'.frames.modify (ρ.frame r) (·.put (ρ.var r x) (ρ.value v)) } := by
  have hplace {r' : Ref} {x' : Variable} :
      (ρ.frame r = ρ.frame r' ∧ ρ.frame r < h'.frames.size) ∧ ρ.var r' x' = ρ.var r x ↔
        (r = r' ∧ r < h.frames.size) ∧ x' = x := by
    rw [ρ.frame_injective.eq_iff, hc.frame_lt_iff]
    constructor
    · rintro ⟨⟨rfl, hlt⟩, hx⟩
      exact ⟨⟨rfl, hlt⟩, ρ.var_injective r hx⟩
    · rintro ⟨⟨rfl, hlt⟩, rfl⟩
      exact ⟨⟨rfl, hlt⟩, rfl⟩
  refine { hc with
    assigned := fun r' x' w hx => ?_
    unassigned := fun hexact r' x' hx => ?_
    framed := fun r' hr => ?_
    nextFrame := fun i => ?_
    nextPlace := fun i => ?_ }
  · dsimp only at hx ⊢
    rw [get?_modify] at hx ⊢
    by_cases hnew : (r = r' ∧ r < h.frames.size) ∧ x' = x
    · rw [if_pos hnew] at hx
      rw [if_pos (hplace.mpr hnew), Option.some.inj hx]
    · rw [if_neg hnew] at hx
      rw [if_neg (hnew ∘ hplace.mp)]
      exact hc.assigned r' x' w hx
  · dsimp only at hx ⊢
    rw [get?_modify] at hx ⊢
    by_cases hnew : (r = r' ∧ r < h.frames.size) ∧ x' = x
    · rw [if_pos hnew] at hx
      cases hx
    · rw [if_neg hnew] at hx
      rw [if_neg (hnew ∘ hplace.mp)]
      exact hc.unassigned hexact r' x' hx
  · dsimp only at hr ⊢
    rw [Array.size_modify] at hr ⊢
    exact hc.framed r' hr
  · dsimp only
    rw [Array.size_modify, Array.size_modify, hc.nextFrame]
  · dsimp only
    rw [Array.size_modify, hc.nextPlace]

end Carries

namespace Carried

theorem pure {a : α} : ρ.Carried f (Pure.pure a) (Pure.pure (f a)) :=
  fun _ h _ hc => .ok hc (.refl h.frames)

theorem deliver {a : α} {b : β} (hb : b = f a) : ρ.Carried f (Pure.pure a) (Pure.pure b) :=
  hb ▸ pure

theorem throw (halt : Halt) :
    ρ.Carried f (MonadExcept.throw halt : Eval α) (MonadExcept.throw halt) :=
  fun _ h _ hc => .error hc (.refl h.frames)

theorem fault (fault : Fault) : ρ.Carried f (Eval.fault fault) (Eval.fault fault) :=
  throw (.fault fault)

theorem faultOf {fault fault' : Fault} (h : fault' = fault) :
    ρ.Carried f (Eval.fault fault) (Eval.fault fault') := by
  subst h
  exact Carried.fault fault'

theorem bind {k : α → Eval γ} {k' : β → Eval δ} (hx : ρ.Carried f x y)
    (hk : ∀ a, ρ.Carried g (k a) (k' (f a))) : ρ.Carried g (x >>= k) (y >>= k') := by
  intro n h h' hc
  have hr := hx n h h' hc
  change ρ.Ends g h.frames (Eval.runOn (x.run n h) fun a => (k a).run n)
    (Eval.runOn (y.run n h') fun b => (k' b).run n)
  generalize x.run n h = r, y.run n h' = r' at hr ⊢
  cases hr with
  | ok hc₁ hg => exact (hk _ n _ _ hc₁).after hg
  | error hc₁ hg => exact .error hc₁ hg
  | lost hinexact hfault => exact .lost hinexact hfault

theorem map {k : α → γ} {k' : β → δ} (hx : ρ.Carried f x y) (hk : ∀ a, k' (f a) = g (k a)) :
    ρ.Carried g (k <$> x) (k' <$> y) := bind hx fun a => deliver (hk a)

theorem failed (fault : Fault) {k : α → Eval γ} {k' : α → Eval δ} :
    ρ.Carried g (Eval.fault fault >>= k) (Eval.fault fault >>= k') :=
  fun _ h _ hc => .error hc (.refl h.frames)

theorem ofExcept {e : Except Fault α} {e' : Except Fault β} (he : e' = e.map f) :
    ρ.Carried f (Eval.ofExcept e) (Eval.ofExcept e') := by
  subst he
  cases e with
  | ok a => exact pure
  | error fault => exact Carried.fault fault

theorem ofSame {e e' : Except Fault α} (he : e' = e) :
    ρ.Carried id (Eval.ofExcept e) (Eval.ofExcept e') := by
  subst he
  cases e' with
  | ok a => exact pure
  | error fault => exact Carried.fault fault

theorem get {k : Heap → Eval γ} {k' : Heap → Eval δ}
    (hk : ∀ h h', ρ.Carries h h' → ρ.Carried g (k h) (k' h')) :
    ρ.Carried g (MonadState.get >>= k) (MonadState.get >>= k') :=
  fun n h h' hc => hk h h' hc n h h' hc

theorem nested (cost : Nat) (hx : ρ.Carried f x y) :
    ρ.Carried f (Eval.nested cost x) (Eval.nested cost y) := by
  intro n h h' hc
  change ρ.Ends f h.frames (if n + cost > Eval.deepestCall then _ else _)
    (if n + cost > Eval.deepestCall then _ else _)
  split
  · exact .error hc (.refl _)
  · exact hx (n + cost) h h' hc

/-- Handlers leave alone what a variable without a value leads to. -/
theorem tryCatch {k : Halt → Eval α} {k' : Halt → Eval β} (hx : ρ.Carried f x y)
    (hk : ∀ halt, ρ.Carried f (k halt) (k' halt))
    (hlost : ∀ fault : Fault, fault.IsUnassigned → k (.fault fault) = Eval.fault fault) :
    ρ.Carried f (MonadExcept.tryCatch x k) (MonadExcept.tryCatch y k') := by
  intro n h h' hc
  have hr := hx n h h' hc
  change ρ.Ends f h.frames (Eval.handled (x.run n h) fun halt => (k halt).run n)
    (Eval.handled (y.run n h') fun halt => (k' halt).run n)
  generalize x.run n h = r, y.run n h' = r' at hr ⊢
  cases hr with
  | ok hc₁ hg => exact .ok hc₁ hg
  | error hc₁ hg =>
    unfold Eval.handled
    dsimp only
    split
    · exact .error hc₁ hg
    · exact (hk _ n _ _ hc₁).after hg
  | @lost fault h₁ r hinexact hfault =>
    unfold Eval.handled
    dsimp only
    split
    · exact .lost hinexact hfault
    · rw [hlost fault hfault]
      exact .lost hinexact hfault

theorem allocate (c : Cell) :
    ρ.Carried ρ.cell (Eval.allocate c) (Eval.allocate (ρ.heapCell c)) := by
  intro n h h' hc
  have hrun : (Eval.allocate (ρ.heapCell c)).run n h' =
      .ok (ρ.cell h.cells.size) { h' with cells := h'.cells.push (ρ.heapCell c) } := by
    rw [hc.cells.size_eq]
    rfl
  rw [hrun]
  exact .ok (hc.pushCell c) (.refl h.frames)

theorem write (r : Ref) (c : Cell) :
    ρ.Carried id (Eval.write r c) (Eval.write (ρ.cell r) (ρ.heapCell c)) :=
  fun _ h _ hc => .ok (a := ()) (hc.setCell r c) (.refl h.frames)

theorem writeList (r : Ref) {items items' : Array Value} (hitems : items' = items.map ρ.value) :
    ρ.Carried id (Eval.write r (.list items)) (Eval.write (ρ.cell r) (.list items')) := by
  subst hitems
  exact write r (.list items)

theorem writeDict (r : Ref) {entries entries' : Array (Value × Value)}
    (hentries : entries' = entries.map ρ.entry) :
    ρ.Carried id (Eval.write r (.dict entries)) (Eval.write (ρ.cell r) (.dict entries')) := by
  subst hentries
  exact write r (.dict entries)

theorem writeSet (r : Ref) {items items' : Array Value} (hitems : items' = items.map ρ.value) :
    ρ.Carried id (Eval.write r (.set items)) (Eval.write (ρ.cell r) (.set items')) := by
  subst hitems
  exact write r (.set items)

theorem newList (items : Array Value) :
    ρ.Carried ρ.value (Eval.newList items) (Eval.newList (items.map ρ.value)) :=
  bind (allocate (.list items)) fun _ => pure

theorem newListOf (items : List Value) : ρ.Carried ρ.value (Eval.newList items.toArray)
    (Eval.newList (items.map ρ.value).toArray) := by
  rw [← List.map_toArray]
  exact newList items.toArray

theorem newDict (entries : Array (Value × Value)) :
    ρ.Carried ρ.value (Eval.newDict entries) (Eval.newDict (entries.map ρ.entry)) :=
  bind (allocate (.dict entries)) fun _ => pure

theorem newSet (items : Array Value) :
    ρ.Carried ρ.value (Eval.newSet items) (Eval.newSet (items.map ρ.value)) :=
  bind (allocate (.set items)) fun _ => pure

theorem newIterator (kind : IteratorKind) (c : Cursor) :
    ρ.Carried ρ.value (Eval.newIterator kind c) (Eval.newIterator kind (ρ.cursor c)) :=
  bind (allocate (.iterator c)) fun _ => pure

theorem newFrame (b : Frame) :
    ρ.Carried ρ.frame (Eval.newFrame b) (Eval.newFrame (ρ.bindings b)) := by
  intro n h h' hc
  have hrun : (Eval.newFrame (ρ.bindings b)).run n h' = .ok (ρ.frame h.frames.size)
      { h' with frames := h'.frames.push (ρ.bindings b) } := by
    rw [hc.frame_size]
    rfl
  rw [hrun]
  exact .ok (hc.pushFrame b) (grows_push h.frames b)

theorem bindVariable (r : Ref) (x : Variable) (v : Value) : ρ.Carried id (Eval.bind r x v)
    (Eval.bind (ρ.frame r) (ρ.var r x) (ρ.value v)) :=
  fun _ h _ hc => .ok (a := ()) (hc.putVariable r x v) (grows_bind h.frames r x v)

/-- The value of a variable, which the first run may lack. -/
theorem lookup (r : Ref) (x : Variable) {fault : Fault} (hfault : fault.IsUnassigned) :
    ρ.Carried ρ.value
      (do
        match (← Eval.frame r).get? x with
        | some v => return v
        | none => Eval.fault fault)
      (do
        match (← Eval.frame (ρ.frame r)).get? (ρ.var r x) with
        | some v => return v
        | none => Eval.fault fault) := by
  intro n h h' hc
  change ρ.Ends ρ.value h.frames
    ((match (h.frames.getD r []).get? x with
      | some v => Pure.pure v
      | none => Eval.fault fault : Eval Value).run n h)
    ((match (h'.frames.getD (ρ.frame r) []).get? (ρ.var r x) with
      | some v => Pure.pure v
      | none => Eval.fault fault : Eval Value).run n h')
  cases hx : (h.frames.getD r []).get? x with
  | some v =>
    rw [hc.assigned r x v hx]
    exact .ok hc (.refl h.frames)
  | none =>
    by_cases hexact : ρ.exact
    · rw [hc.unassigned hexact r x hx]
      exact .error hc (.refl h.frames)
    · exact .lost hexact hfault

theorem newData (d : RenderData) :
    ρ.Carried ρ.data (Eval.newData d) (Eval.newData (ρ.renderData d)) := by
  intro n h h' hc
  have hrun : (Eval.newData (ρ.renderData d)).run n h' =
      .ok (ρ.data h.data.size) { h' with data := h'.data.push (ρ.renderData d) } := by
    rw [hc.data.size_eq]
    rfl
  rw [hrun]
  exact .ok (hc.pushData d) (.refl h.frames)

theorem data (r : Ref) : ρ.Carried ρ.renderData (Eval.data r) (Eval.data (ρ.data r)) := by
  intro n h h' hc
  have hdata : h'.data.getD (ρ.data r) default = ρ.renderData (h.data.getD r default) := by
    rw [Array.getD_eq_getD_getElem?, Array.getD_eq_getD_getElem?, hc.data.held]
    cases h.data[r]? <;> rfl
  have hrun : (Eval.data (ρ.data r)).run n h' =
      .ok (ρ.renderData (h.data.getD r default)) h' := by
    rw [← hdata]
    rfl
  rw [hrun]
  exact .ok hc (.refl h.frames)

section Lists

variable {ε ζ : Type} {e : ε → ζ}

theorem mapM {k : ε → Eval α} {k' : ζ → Eval β} (hk : ∀ a, ρ.Carried f (k a) (k' (e a)))
    (es : List ε) : ρ.Carried (List.map f) (es.mapM k) ((es.map e).mapM k') := by
  have hloop (done : List α) :
      ρ.Carried (List.map f) (List.mapM.loop k es done)
        (List.mapM.loop k' (es.map e) (done.map f)) := by
    induction es generalizing done with
    | nil => exact deliver List.map_reverse.symm
    | cons a es ih => exact bind (hk a) fun b => ih (b :: done)
  exact hloop []

theorem mapM_same {k : ε → Eval α} {k' : ε → Eval β} (hk : ∀ a, ρ.Carried f (k a) (k' a))
    (es : List ε) : ρ.Carried (List.map f) (es.mapM k) (es.mapM k') := by
  have hall := mapM (e := id) hk es
  rwa [List.map_id] at hall

theorem filterMapM_same {k : ε → Eval (Option α)} {k' : ε → Eval (Option β)}
    (hk : ∀ a, ρ.Carried (Option.map f) (k a) (k' a)) (es : List ε) :
    ρ.Carried (List.map f) (es.filterMapM k) (es.filterMapM k') := by
  have hloop (done : List α) : ρ.Carried (List.map f) (List.filterMapM.loop k es done)
      (List.filterMapM.loop k' es (done.map f)) := by
    induction es generalizing done with
    | nil => exact deliver List.map_reverse.symm
    | cons a es ih =>
      refine bind (hk a) fun b => ?_
      cases b with
      | none => exact ih done
      | some b => exact ih (b :: done)
  exact hloop []

theorem findM? {p : ε → Eval Bool} {p' : ζ → Eval Bool} (hp : ∀ a, ρ.Carried id (p a) (p' (e a)))
    (es : List ε) : ρ.Carried (Option.map e) (es.findM? p) ((es.map e).findM? p') := by
  induction es with
  | nil => exact pure
  | cons a es ih =>
    refine bind (hp a) fun found => ?_
    cases found with
    | true => exact pure
    | false => exact ih

theorem forM {k : ε → Eval PUnit} {k' : ζ → Eval PUnit}
    (hk : ∀ a, ρ.Carried id (k a) (k' (e a))) (es : List ε) :
    ρ.Carried id (es.forM k) ((es.map e).forM k') := by
  induction es with
  | nil => exact pure (a := PUnit.unit)
  | cons a es ih => exact bind (hk a) fun _ => ih

theorem foldlM {k : α → ε → Eval α} {k' : β → ζ → Eval β}
    (hk : ∀ a b, ρ.Carried f (k a b) (k' (f a) (e b))) (es : List ε) (a : α) :
    ρ.Carried f (es.foldlM k a) ((es.map e).foldlM k' (f a)) := by
  induction es generalizing a with
  | nil => exact pure
  | cons b es ih => exact bind (hk a b) fun a => ih a

end Lists

end Carried

end Renaming

end Stencil
