import Stencil.Proofs.Twins

/-!
# References

A heap is sound if whatever a value in it refers to is there and is of the kind that the value
takes it for. The iterator by which a loop makes its own passes stands right behind the loop, and
no value refers to it. Heaps lead to others in which nothing is lost: cells keep their kinds, loops
their lists and the loops around them, and the variables of loops their values. How far the
progress of loops and the variables may change all the same is told by a `Licence`.
-/

namespace Stencil

inductive CellKind
  | list | dict | set | object | textual | iterator | loop | function
deriving DecidableEq, Repr

def Cell.kind : Cell → CellKind
  | .list _ => .list
  | .dict _ => .dict
  | .set _ => .set
  | .object _ => .object
  | .textual _ => .textual
  | .iterator _ => .iterator
  | .loop _ => .loop
  | .function _ => .function

/-- Data that hold values, with the references in them. -/
class Refers (α : Type) where
  refs : α → List (CellKind × Ref)

export Refers (refs)

namespace Value

mutual

def references : Value → List (CellKind × Ref)
  | .tuple items => referencesOf items
  | .slice start stop step => references start ++ references stop ++ references step
  | .list r => [(.list, r)]
  | .dict r | .view _ r | .row r => [(.dict, r)]
  | .set r => [(.set, r)]
  | .iterator _ r => [(.iterator, r)]
  | .object r => [(.object, r)]
  | .textual r => [(.textual, r)]
  | .loop r => [(.loop, r)]
  | .function r => [(.function, r)]
  | .method receiver _ => references receiver
  | .generic _ parameter => references parameter
  | .none | .ellipsis | .undefined | .bool _ | .int _ | .float _ | .complex _ _ | .str _
  | .bytes _ | .range _ _ _ | .builtin _ | .host _ | .unboundMethod _ _ | .typeOf _ => []

def referencesOf : List Value → List (CellKind × Ref)
  | [] => []
  | v :: vs => references v ++ referencesOf vs

end

theorem referencesOf_eq (vs : List Value) : referencesOf vs = vs.flatMap references := by
  induction vs with
  | nil => rfl
  | cons v vs ih => rw [referencesOf, ih, List.flatMap_cons]

end Value

section Instances

variable {α β : Type}

instance : Refers Value := ⟨Value.references⟩
instance : Refers Unit := ⟨fun _ => []⟩
instance : Refers Bool := ⟨fun _ => []⟩
instance : Refers Nat := ⟨fun _ => []⟩
instance : Refers Int := ⟨fun _ => []⟩
instance : Refers Char := ⟨fun _ => []⟩
instance : Refers String := ⟨fun _ => []⟩
instance : Refers Variable := ⟨fun _ => []⟩
instance : Refers Expr := ⟨fun _ => []⟩
instance [Refers α] : Refers (List α) := ⟨fun l => l.flatMap refs⟩
instance [Refers α] : Refers (Array α) := ⟨fun a => refs a.toList⟩
instance [Refers α] : Refers (Option α) := ⟨fun o => refs o.toList⟩
instance [Refers α] [Refers β] : Refers (α × β) := ⟨fun x => refs x.1 ++ refs x.2⟩
instance [Refers α] [Refers β] : Refers (α ⊕ β) := ⟨Sum.elim refs refs⟩
instance [Refers α] : Refers (ForInStep α) := ⟨fun s => refs s.value⟩
instance : Refers Comprehension := ⟨fun c => refs c.iterators⟩
instance : Refers Closure := ⟨fun c => refs c.defaults ++ refs c.keywordDefaults⟩
instance : Refers RenderData := ⟨fun d => refs d.names ++ refs d.otherKeys⟩
instance : Refers LoopState :=
  ⟨fun s => (.list, s.items) :: s.parent.toList.map fun r => (.loop, r)⟩

end Instances

def Cursor.references : Cursor → List (CellKind × Ref)
  | .done | .range _ _ _ => []
  | .list r _ | .listBackward r _ => [(.list, r)]
  | .items rest => refs rest
  | .set r _ _ => [(.set, r)]
  | .dict _ r _ _ | .dictBackward _ r _ _ => [(.dict, r)]
  | .enumerate inner _ => refs inner
  | .zip inner _ => refs inner
  | .subscripts v _ => refs v
  | .comprehension c => refs c
  | .loop r _ => [(.loop, r)]

instance : Refers Cursor := ⟨Cursor.references⟩

def Cell.references : Cell → List (CellKind × Ref)
  | .list items | .set items => refs items
  | .dict entries => refs entries
  | .object fields => refs fields
  | .textual _ => []
  | .iterator c => refs c
  | .loop s => refs s
  | .function c => refs c

instance : Refers Cell := ⟨Cell.references⟩

namespace Heap

def Hides (h : Heap) (r : Ref) : Prop := ∃ q s, h.cells[q]? = some (.loop s) ∧ r = q + 1

def Offers (h : Heap) (k : CellKind) (r : Ref) : Prop :=
  ¬ h.Hides r ∧ ∃ c, h.cells[r]? = some c ∧ c.kind = k

end Heap

/-- All that is referred to is offered by the heap. -/
def Suits {α : Type} [Refers α] (h : Heap) (a : α) : Prop := ∀ x ∈ refs a, h.Offers x.1 x.2

def Cursor.IsOwn (r : Ref) : Cursor → Prop
  | .done => True
  | .loop q _ => q = r
  | _ => False

/-- References are to what is there; behind every loop is its iterator, and a loop was made after
the one around it. -/
structure Heap.IsSound (h : Heap) : Prop where
  cells : ∀ {r : Ref} {c : Cell}, h.cells[r]? = some c → Suits h c
  values : ∀ {r : Ref} {x : Variable} {v : Value},
    (h.frames.getD r []).get? x = some v → Suits h v
  data : ∀ r : Ref, Suits h (h.data.getD r default)
  followed : ∀ {r : Ref} {s : LoopState}, h.cells[r]? = some (.loop s) →
    ∃ c, h.cells[r + 1]? = some (.iterator c) ∧ c.IsOwn r
  parents : ∀ {r : Ref} {s : LoopState} {p : Ref}, h.cells[r]? = some (.loop s) →
    s.parent = some p → p < r

/-- What may be done besides making things and changing what is no loop. -/
structure Licence where
  /-- The heap that leads to all heaps in question. -/
  start : Heap
  /-- Loops whose pass may change. -/
  moves : Ref → Prop
  /-- Loops that may ask their own iterators. -/
  asks : Ref → Prop
  /-- Variables that may be given values. -/
  binds : Ref → Variable → Prop
  own : ∀ r name, binds r (.own name)
  /-- Halts that do not happen. -/
  bars : Halt → Prop
  /-- Nothing misses a name that is there. -/
  barred : ∀ {halt}, bars halt →
    ∃ name available, halt = .undefinedName name available ∧ name ∈ available

/-- Nothing is lost from the first heap to the second. -/
structure Licence.Leads (l : Licence) (h h' : Heap) : Prop where
  size_le : h.cells.size ≤ h'.cells.size
  kinds : ∀ {r : Ref} {c : Cell}, h.cells[r]? = some c →
    ∃ c', h'.cells[r]? = some c' ∧ c'.kind = c.kind
  loops : ∀ {r : Ref} {s : LoopState}, h.cells[r]? = some (.loop s) →
    ∃ i, h'.cells[r]? = some (.loop { s with index := i }) ∧ (¬ l.moves r → i = s.index)
  iterators : ∀ {r : Ref} {s : LoopState}, h.cells[r]? = some (.loop s) → ¬ l.asks r →
    h'.cells[r + 1]? = h.cells[r + 1]?
  frames_le : h.frames.size ≤ h'.frames.size
  values : ∀ {r : Ref} {x : Variable}, r < h.frames.size → ¬ l.binds r x →
    (h'.frames.getD r []).get? x = (h.frames.getD r []).get? x

namespace Cell

theorem eq_loop_of_kind {c : Cell} (h : c.kind = .loop) : ∃ s, c = .loop s := by
  cases c with
  | loop s => exact ⟨s, rfl⟩
  | _ => cases h

end Cell

namespace Licence.Leads

variable {l : Licence} {h h' h'' : Heap}

theorem refl (l : Licence) (h : Heap) : l.Leads h h where
  size_le := Nat.le_refl _
  kinds hc := ⟨_, hc, rfl⟩
  loops hc := ⟨_, hc, fun _ => rfl⟩
  iterators _ _ := rfl
  frames_le := Nat.le_refl _
  values _ _ := rfl

theorem trans (hl : l.Leads h h') (hl' : l.Leads h' h'') : l.Leads h h'' where
  size_le := Nat.le_trans hl.size_le hl'.size_le
  kinds hc := by
    obtain ⟨c', hc', hk⟩ := hl.kinds hc
    obtain ⟨c'', hc'', hk'⟩ := hl'.kinds hc'
    exact ⟨c'', hc'', hk'.trans hk⟩
  loops hc := by
    obtain ⟨i, hc', hi⟩ := hl.loops hc
    obtain ⟨j, hc'', hj⟩ := hl'.loops hc'
    exact ⟨j, hc'', fun hm => (hj hm).trans (hi hm)⟩
  iterators hc ha := by
    obtain ⟨i, hc', -⟩ := hl.loops hc
    exact (hl'.iterators hc' ha).trans (hl.iterators hc ha)
  frames_le := Nat.le_trans hl.frames_le hl'.frames_le
  values hr hx :=
    (hl'.values (Nat.lt_of_lt_of_le hr hl.frames_le) hx).trans (hl.values hr hx)

theorem offers (hl : l.Leads h h') {k : CellKind} {r : Ref} (ho : h.Offers k r) :
    h'.Offers k r := by
  obtain ⟨hhides, c, hc, hk⟩ := ho
  obtain ⟨c', hc', hk'⟩ := hl.kinds hc
  refine ⟨?_, c', hc', hk'.trans hk⟩
  rintro ⟨q, s, hq, rfl⟩
  have hlt : q < h.cells.size := Nat.lt_of_succ_lt (Array.getElem?_eq_some_iff.mp hc).1
  have hold : h.cells[q]? = some h.cells[q] := Array.getElem?_eq_getElem hlt
  obtain ⟨c₁, hc₁, hk₁⟩ := hl.kinds hold
  rw [hq] at hc₁
  cases hc₁
  obtain ⟨s', hs'⟩ := Cell.eq_loop_of_kind hk₁.symm
  exact hhides ⟨q, s', hold.trans (congrArg some hs'), rfl⟩

end Licence.Leads

section Fitting

variable {α β : Type} [Refers α] [Refers β] {l : Licence} {h h' : Heap}

theorem Suits.after {a : α} (ha : Suits h a) (hl : l.Leads h h') : Suits h' a :=
  fun x hx => hl.offers (ha x hx)

theorem Suits.of_refs {a : α} {b : β} (ha : Suits h a) (hsub : refs b ⊆ refs a) : Suits h b :=
  fun x hx => ha x (hsub hx)

@[simp] theorem suits_nil : Suits h ([] : List α) := fun _ hx => nomatch hx

@[simp] theorem suits_cons {a : α} {as : List α} : Suits h (a :: as) ↔ Suits h a ∧ Suits h as := by
  unfold Suits
  change (∀ x ∈ refs a ++ refs as, _) ↔ _
  simp only [List.mem_append, or_imp, forall_and]

theorem suits_list_iff {as : List α} : Suits h as ↔ ∀ a ∈ as, Suits h a := by
  induction as with
  | nil => simp
  | cons a as ih => simp [ih]

@[simp] theorem suits_append {as bs : List α} : Suits h (as ++ bs) ↔ Suits h as ∧ Suits h bs := by
  simp only [suits_list_iff, List.mem_append, or_imp, forall_and]

theorem suits_array_iff {as : Array α} : Suits h as ↔ ∀ a ∈ as, Suits h a := by
  change Suits h as.toList ↔ _
  simp only [suits_list_iff, Array.mem_toList_iff]

@[simp] theorem suits_toList {as : Array α} : Suits h as.toList ↔ Suits h as := Iff.rfl

@[simp] theorem suits_toArray {as : List α} : Suits h as.toArray ↔ Suits h as := Iff.rfl

@[simp] theorem suits_push {as : Array α} {a : α} :
    Suits h (as.push a) ↔ Suits h as ∧ Suits h a := by
  rw [← suits_toList, Array.toList_push]
  simp

@[simp] theorem suits_appendArray {as bs : Array α} :
    Suits h (as ++ bs) ↔ Suits h as ∧ Suits h bs := by
  rw [← suits_toList, Array.toList_append]
  simp

@[simp] theorem suits_pair {a : α} {b : β} : Suits h (a, b) ↔ Suits h a ∧ Suits h b := by
  unfold Suits
  change (∀ x ∈ refs a ++ refs b, _) ↔ _
  simp only [List.mem_append, or_imp, forall_and]

@[simp] theorem suits_none : Suits h (none : Option α) := fun _ hx => nomatch hx

@[simp] theorem suits_some {a : α} : Suits h (some a) ↔ Suits h a := by
  change Suits h [a] ↔ _
  simp

@[simp] theorem suits_inl {a : α} : Suits h (Sum.inl a : α ⊕ β) ↔ Suits h a := Iff.rfl

@[simp] theorem suits_inr {b : β} : Suits h (Sum.inr b : α ⊕ β) ↔ Suits h b := Iff.rfl

@[simp] theorem suits_done {a : α} : Suits h (ForInStep.done a) ↔ Suits h a := Iff.rfl

@[simp] theorem suits_yield {a : α} : Suits h (ForInStep.yield a) ↔ Suits h a := Iff.rfl

@[simp] theorem suits_unit (a : Unit) : Suits h a := fun _ hx => nomatch hx

@[simp] theorem suits_bool (b : Bool) : Suits h b := fun _ hx => nomatch hx

@[simp] theorem suits_nat (n : Nat) : Suits h n := fun _ hx => nomatch hx

@[simp] theorem suits_int (n : Int) : Suits h n := fun _ hx => nomatch hx

@[simp] theorem suits_char (c : Char) : Suits h c := fun _ hx => nomatch hx

@[simp] theorem suits_string (s : String) : Suits h s := fun _ hx => nomatch hx

@[simp] theorem suits_variable (x : Variable) : Suits h x := fun _ hx => nomatch hx

@[simp] theorem suits_expr (e : Expr) : Suits h e := fun _ hx => nomatch hx

theorem suits_of_isEmpty {a : α} (ha : refs a = []) : Suits h a := by
  intro x hx
  rw [ha] at hx
  cases hx

theorem suits_of_refs_singleton {a : α} {k : CellKind} {r : Ref} (ha : refs a = [(k, r)]) :
    Suits h a ↔ h.Offers k r := by
  unfold Suits
  rw [ha]
  simp

section Values

variable (r : Ref)

@[simp] theorem suits_listValue : Suits h (Value.list r) ↔ h.Offers .list r :=
  suits_of_refs_singleton rfl

@[simp] theorem suits_dictValue : Suits h (Value.dict r) ↔ h.Offers .dict r :=
  suits_of_refs_singleton rfl

@[simp] theorem suits_viewValue (kind : ViewKind) :
    Suits h (Value.view kind r) ↔ h.Offers .dict r :=
  suits_of_refs_singleton rfl

@[simp] theorem suits_rowValue : Suits h (Value.row r) ↔ h.Offers .dict r :=
  suits_of_refs_singleton rfl

@[simp] theorem suits_setValue : Suits h (Value.set r) ↔ h.Offers .set r :=
  suits_of_refs_singleton rfl

@[simp] theorem suits_iteratorValue (kind : IteratorKind) :
    Suits h (Value.iterator kind r) ↔ h.Offers .iterator r :=
  suits_of_refs_singleton rfl

@[simp] theorem suits_objectValue : Suits h (Value.object r) ↔ h.Offers .object r :=
  suits_of_refs_singleton rfl

@[simp] theorem suits_textualValue : Suits h (Value.textual r) ↔ h.Offers .textual r :=
  suits_of_refs_singleton rfl

@[simp] theorem suits_loopValue : Suits h (Value.loop r) ↔ h.Offers .loop r :=
  suits_of_refs_singleton rfl

@[simp] theorem suits_functionValue : Suits h (Value.function r) ↔ h.Offers .function r :=
  suits_of_refs_singleton rfl

@[simp] theorem suits_tupleValue (items : List Value) :
    Suits h (Value.tuple items) ↔ Suits h items := by
  unfold Suits
  change (∀ x ∈ Value.referencesOf items, _) ↔ _
  rw [Value.referencesOf_eq]
  exact Iff.rfl

@[simp] theorem suits_sliceValue (a b c : Value) :
    Suits h (Value.slice a b c) ↔ Suits h a ∧ Suits h b ∧ Suits h c := by
  unfold Suits
  change (∀ x ∈ refs a ++ refs b ++ refs c, _) ↔ _
  simp only [List.mem_append, or_imp, forall_and, and_assoc]

@[simp] theorem suits_methodValue (v : Value) (name : String) :
    Suits h (Value.method v name) ↔ Suits h v := Iff.rfl

@[simp] theorem suits_genericValue (b : Builtin) (v : Value) :
    Suits h (Value.generic b v) ↔ Suits h v := Iff.rfl

@[simp] theorem suits_noneValue : Suits h Value.none := suits_of_isEmpty rfl

@[simp] theorem suits_ellipsisValue : Suits h Value.ellipsis := suits_of_isEmpty rfl

@[simp] theorem suits_undefinedValue : Suits h Value.undefined := suits_of_isEmpty rfl

@[simp] theorem suits_boolValue (b : Bool) : Suits h (Value.bool b) := suits_of_isEmpty rfl

@[simp] theorem suits_intValue (n : Int) : Suits h (Value.int n) := suits_of_isEmpty rfl

@[simp] theorem suits_floatValue (x : Binary64) : Suits h (Value.float x) := suits_of_isEmpty rfl

@[simp] theorem suits_complexValue (x y : Binary64) : Suits h (Value.complex x y) :=
  suits_of_isEmpty rfl

@[simp] theorem suits_strValue (s : String) : Suits h (Value.str s) := suits_of_isEmpty rfl

@[simp] theorem suits_bytesValue (b : List UInt8) : Suits h (Value.bytes b) := suits_of_isEmpty rfl

@[simp] theorem suits_rangeValue (a b c : Int) : Suits h (Value.range a b c) := suits_of_isEmpty rfl

@[simp] theorem suits_builtinValue (b : Builtin) : Suits h (Value.builtin b) := suits_of_isEmpty rfl

@[simp] theorem suits_hostValue (f : HostFunction) : Suits h (Value.host f) := suits_of_isEmpty rfl

@[simp] theorem suits_unboundMethodValue (b : Builtin) (name : String) :
    Suits h (Value.unboundMethod b name) := suits_of_isEmpty rfl

@[simp] theorem suits_typeOfValue (name : String) : Suits h (Value.typeOf name) :=
  suits_of_isEmpty rfl

end Values

end Fitting

end Stencil
