import Stencil.Proofs.Twins

/-!
# Renamings

A heap may hold what nothing refers to, and so may have its cells, frames and render data at
other places than another. A `Renaming` says where each of them is in the other heap, and under
which position a frame keeps the variables of a loop. Values, scopes and cells are renamed with
the references in them. `Carries` relates two heaps of which the second holds, at the new places,
all that the first one holds, and maybe more.
-/

namespace Stencil

open Text (Position)

structure Renaming where
  cell : Ref → Ref
  frame : Ref → Ref
  data : Ref → Ref
  /-- The position by which the variables of a loop are known in a frame. -/
  place : Ref → Position → Position
  /-- Whether variables without a value have none in the other heap, either. -/
  exact : Prop
  /-- Whether boundaries are at the same lines. -/
  lined : Prop := exact
  /-- What the other heap holds at places where it has nothing of the first one. -/
  spare : Ref → Option Cell := fun _ => none
  /-- A cell that was made later was made later in the other heap, too. -/
  cell_lt : ∀ {a b : Ref}, a < b → cell a < cell b
  frame_injective : Function.Injective frame
  place_injective : ∀ r, Function.Injective (place r)
  place_exact : exact → ∀ r, place r = id
  lined_exact : lined → exact := by exact id
  spare_apart : ∀ {r c}, spare r = some c → ∀ q, cell q ≠ r := by exact nofun

namespace Renaming

theorem places_left {exact : Prop} (_ : exact) (r : Ref) :
    (fun _ => id : Ref → Position → Position) r = id := rfl

variable (ρ : Renaming)

theorem cell_inj {a b : Ref} : ρ.cell a = ρ.cell b ↔ a = b := by
  constructor
  · intro h
    rcases Nat.lt_trichotomy a b with hlt | heq | hlt
    · exact absurd h (Nat.ne_of_lt (ρ.cell_lt hlt))
    · exact heq
    · exact absurd h.symm (Nat.ne_of_lt (ρ.cell_lt hlt))
  · exact congrArg ρ.cell

theorem cell_lt_iff {a b : Ref} : ρ.cell a < ρ.cell b ↔ a < b := by
  constructor
  · intro h
    rcases Nat.lt_trichotomy a b with hlt | heq | hlt
    · exact hlt
    · exact absurd h (heq ▸ Nat.lt_irrefl _)
    · exact absurd (ρ.cell_lt hlt) (Nat.lt_asymm h)
  · exact ρ.cell_lt

mutual

def value : Value → Value
  | .tuple items => .tuple (values items)
  | .slice start stop step => .slice (value start) (value stop) (value step)
  | .list r => .list (ρ.cell r)
  | .dict r => .dict (ρ.cell r)
  | .set r => .set (ρ.cell r)
  | .view kind r => .view kind (ρ.cell r)
  | .iterator kind r => .iterator kind (ρ.cell r)
  | .object r => .object (ρ.cell r)
  | .row r => .row (ρ.cell r)
  | .textual r => .textual (ρ.cell r)
  | .loop r => .loop (ρ.cell r)
  | .function r => .function (ρ.cell r)
  | .method receiver name => .method (value receiver) name
  | .generic b parameter => .generic b (value parameter)
  | .none => .none
  | .ellipsis => .ellipsis
  | .undefined => .undefined
  | .bool b => .bool b
  | .int n => .int n
  | .float x => .float x
  | .complex re im => .complex re im
  | .str s => .str s
  | .bytes b => .bytes b
  | .range start stop step => .range start stop step
  | .builtin b => .builtin b
  | .host f => .host f
  | .unboundMethod b name => .unboundMethod b name
  | .typeOf name => .typeOf name

def values : List Value → List Value
  | [] => []
  | v :: vs => value v :: values vs

end

theorem values_eq_map (vs : List Value) : ρ.values vs = vs.map ρ.value := by
  induction vs with
  | nil => rfl
  | cons v vs ih => rw [values, ih, List.map_cons]

@[simp] theorem value_tuple (items : List Value) :
    ρ.value (.tuple items) = .tuple (items.map ρ.value) := by
  rw [value, values_eq_map]

def entry (e : Value × Value) : Value × Value := (ρ.value e.1, ρ.value e.2)

def binding {κ : Type} (e : κ × Value) : κ × Value := (e.1, ρ.value e.2)

def bindings {κ : Type} (b : BindingsOf κ) : BindingsOf κ := b.map ρ.binding

def loopScope (r : Ref) (l : LoopScope) : LoopScope := { l with position := ρ.place r l.position }

def localScope (l : LocalScope) : LocalScope := { l with frame := ρ.frame l.frame }

def scope (s : Scope) : Scope :=
  { s with
    data := ρ.data s.data
    frame := ρ.frame s.frame
    loops := s.loops.map (ρ.loopScope s.frame)
    locals := s.locals.map ρ.localScope }

def comprehension (c : Comprehension) : Comprehension :=
  { c with scope := ρ.scope c.scope, iterators := c.iterators.map ρ.value }

def closure (c : Closure) : Closure :=
  { c with
    scope := ρ.scope c.scope
    defaults := c.defaults.map ρ.value
    keywordDefaults := ρ.bindings c.keywordDefaults }

def cursor : Cursor → Cursor
  | .done => .done
  | .list r index => .list (ρ.cell r) index
  | .listBackward r remaining => .listBackward (ρ.cell r) remaining
  | .items rest => .items (rest.map ρ.value)
  | .set r index size => .set (ρ.cell r) index size
  | .dict kind r index size => .dict kind (ρ.cell r) index size
  | .dictBackward kind r remaining size => .dictBackward kind (ρ.cell r) remaining size
  | .range next step remaining => .range next step remaining
  | .enumerate inner index => .enumerate (ρ.value inner) index
  | .zip inner strict => .zip (inner.map ρ.value) strict
  | .subscripts v index => .subscripts (ρ.value v) index
  | .comprehension c => .comprehension (ρ.comprehension c)
  | .loop r index => .loop (ρ.cell r) index

def loopState (s : LoopState) : LoopState :=
  { s with items := ρ.cell s.items, parent := s.parent.map ρ.cell }

def heapCell : Cell → Cell
  | .list items => .list (items.map ρ.value)
  | .dict entries => .dict (entries.map ρ.entry)
  | .set items => .set (items.map ρ.value)
  | .object fields => .object (ρ.bindings fields)
  | .textual s => .textual s
  | .iterator c => .iterator (ρ.cursor c)
  | .loop s => .loop (ρ.loopState s)
  | .function c => .function (ρ.closure c)

def var (r : Ref) : Variable → Variable
  | .own name => .own name
  | .ofLoop position name => .ofLoop (ρ.place r position) name

theorem var_injective (r : Ref) : Function.Injective (ρ.var r) := by
  intro x y h
  cases x with
  | own name => cases y <;> simp_all [var]
  | ofLoop position name =>
    cases y with
    | own name' => simp [var] at h
    | ofLoop position' name' =>
      simp only [var, Variable.ofLoop.injEq] at h
      rw [ρ.place_injective r h.1, h.2]

def renderData (d : RenderData) : RenderData :=
  ⟨ρ.bindings d.names, d.otherKeys.map ρ.value⟩

section Bindings

variable {κ : Type}

theorem bindings_keys (b : BindingsOf κ) : (ρ.bindings b).keys = b.keys := by
  unfold BindingsOf.keys bindings
  rw [List.map_map]
  rfl

theorem bindings_append (b b' : BindingsOf κ) :
    ρ.bindings (b ++ b') = ρ.bindings b ++ ρ.bindings b' := List.map_append

theorem bindings_isEmpty (b : BindingsOf κ) : (ρ.bindings b).isEmpty = b.isEmpty :=
  List.isEmpty_map

variable [DecidableEq κ]

theorem bindings_get? (b : BindingsOf κ) (k : κ) :
    (ρ.bindings b).get? k = (b.get? k).map ρ.value := by
  unfold BindingsOf.get? bindings
  induction b with
  | nil => rfl
  | cons e b ih =>
    obtain ⟨k', v⟩ := e
    rw [List.map_cons, List.lookup_cons, List.lookup_cons]
    change (match k == k' with
      | true => some (ρ.value v)
      | false => List.lookup k (b.map ρ.binding)) = _
    cases k == k' with
    | true => rfl
    | false => exact ih

theorem bindings_put (b : BindingsOf κ) (k : κ) (v : Value) :
    ρ.bindings (b.put k v) = (ρ.bindings b).put k (ρ.value v) := by
  unfold bindings
  induction b with
  | nil => rfl
  | cons e b ih =>
    obtain ⟨k', w⟩ := e
    simp only [BindingsOf.put, List.map_cons, binding]
    split
    · rfl
    · rw [List.map_cons, ih]
      rfl

theorem bindings_update (b more : BindingsOf κ) :
    ρ.bindings (b.update more) = (ρ.bindings b).update (ρ.bindings more) := by
  unfold BindingsOf.update
  induction more generalizing b with
  | nil => rfl
  | cons e more ih =>
    rw [List.foldl_cons, ih, bindings_put]
    rfl

end Bindings

/-- The second table has, at the new places, what the first one has, and both grow alike. -/
structure Aligned {α : Type} (place : Nat → Nat) (rename : α → α) (xs ys : Array α) : Prop where
  held : ∀ r, ys[place r]? = xs[r]?.map rename
  next : ∀ i, place (xs.size + i) = ys.size + i

/-- All that the first heap has, the second one has where the renaming says. -/
structure Carries (h h' : Heap) : Prop where
  cells : Aligned ρ.cell ρ.heapCell h.cells h'.cells
  data : Aligned ρ.data ρ.renderData h.data h'.data
  assigned : ∀ r x v, (h.frames.getD r []).get? x = some v →
    (h'.frames.getD (ρ.frame r) []).get? (ρ.var r x) = some (ρ.value v)
  unassigned : ρ.exact → ∀ r x, (h.frames.getD r []).get? x = none →
    (h'.frames.getD (ρ.frame r) []).get? (ρ.var r x) = none
  framed : ∀ r, r < h.frames.size → ρ.frame r < h'.frames.size
  nextFrame : ∀ i, ρ.frame (h.frames.size + i) = h'.frames.size + i
  /-- Frames that are still to come keep their loops where they are. -/
  nextPlace : ∀ i, ρ.place (h.frames.size + i) = id
  spared : ∀ r c, ρ.spare r = some c → h'.cells[r]? = some c

namespace Aligned

variable {α : Type} {place : Nat → Nat} {rename : α → α} {xs ys : Array α}

theorem size_eq (ha : Aligned place rename xs ys) : place xs.size = ys.size := ha.next 0

theorem lt_iff (ha : Aligned place rename xs ys) {r : Nat} : place r < ys.size ↔ r < xs.size := by
  have hheld : (ys[place r]?.isSome = true) = (xs[r]?.isSome = true) := by
    rw [ha.held, Option.isSome_map]
  rw [isSome_getElem?, isSome_getElem?] at hheld
  exact iff_of_eq hheld

theorem push (ha : Aligned place rename xs ys) (a : α) :
    Aligned place rename (xs.push a) (ys.push (rename a)) where
  held r := by
    rw [Array.getElem?_push, Array.getElem?_push]
    by_cases hr : r = xs.size
    · rw [if_pos hr, if_pos (hr ▸ ha.size_eq), Option.map_some]
    · rw [if_neg hr, if_neg, ha.held]
      intro h
      rcases Nat.lt_or_ge r xs.size with hlt | hge
      · exact absurd (ha.lt_iff.mpr hlt) (h ▸ Nat.lt_irrefl _)
      · have hnext := ha.next (r - xs.size)
        rw [show xs.size + (r - xs.size) = r by omega] at hnext
        omega
  next i := by
    have hnext := ha.next (i + 1)
    rw [Array.size_push, Array.size_push, show xs.size + 1 + i = xs.size + (i + 1) by omega, hnext]
    omega

theorem set (ha : Aligned place rename xs ys) (hinj : ∀ {a b}, place a = place b ↔ a = b) (r : Nat)
    (a : α) : Aligned place rename (xs.setIfInBounds r a)
      (ys.setIfInBounds (place r) (rename a)) where
  held r' := by
    rw [Array.getElem?_setIfInBounds, Array.getElem?_setIfInBounds]
    by_cases hr : r = r'
    · by_cases hlt : r < xs.size
      · rw [if_pos (congrArg place hr), if_pos (ha.lt_iff.mpr hlt), if_pos hr, if_pos hlt,
          Option.map_some]
      · rw [if_pos (congrArg place hr), if_neg (hlt ∘ ha.lt_iff.mp), if_pos hr, if_neg hlt,
          Option.map_none]
    · rw [if_neg (hr ∘ hinj.mp), if_neg hr, ha.held]
  next i := by
    rw [Array.size_setIfInBounds, Array.size_setIfInBounds, ha.next]

end Aligned

namespace Carries

variable {ρ} {h h' : Heap}

theorem pushCell (hc : ρ.Carries h h') (c : Cell) : ρ.Carries
    { h with cells := h.cells.push c } { h' with cells := h'.cells.push (ρ.heapCell c) } :=
  { hc with
    cells := hc.cells.push c
    spared := fun r c' hr => by
      have hold := hc.spared r c' hr
      have hlt := (Array.getElem?_eq_some_iff.mp hold).1
      dsimp only
      rw [Array.getElem?_push, if_neg (Nat.ne_of_lt hlt), hold] }

theorem setCell (hc : ρ.Carries h h') (r : Ref) (c : Cell) : ρ.Carries
    { h with cells := h.cells.setIfInBounds r c }
    { h' with cells := h'.cells.setIfInBounds (ρ.cell r) (ρ.heapCell c) } :=
  { hc with
    cells := hc.cells.set ρ.cell_inj r c
    spared := fun r' c' hr => by
      dsimp only
      rw [Array.getElem?_setIfInBounds, if_neg (ρ.spare_apart hr r), hc.spared r' c' hr] }

theorem pushData (hc : ρ.Carries h h') (d : RenderData) : ρ.Carries
    { h with data := h.data.push d } { h' with data := h'.data.push (ρ.renderData d) } :=
  { hc with data := hc.data.push d }

section Reading

variable (hc : ρ.Carries h h') (r : Ref)

include hc

theorem listItems : h'.listItems (ρ.cell r) = (h.listItems r).map ρ.value := by
  unfold Heap.listItems
  rw [hc.cells.held]
  cases h.cells[r]? with
  | none => simp
  | some c => cases c <;> simp [heapCell]

theorem dictEntries : h'.dictEntries (ρ.cell r) = (h.dictEntries r).map ρ.entry := by
  unfold Heap.dictEntries
  rw [hc.cells.held]
  cases h.cells[r]? with
  | none => simp
  | some c => cases c <;> simp [heapCell]

theorem setItems : h'.setItems (ρ.cell r) = (h.setItems r).map ρ.value := by
  unfold Heap.setItems
  rw [hc.cells.held]
  cases h.cells[r]? with
  | none => simp
  | some c => cases c <;> simp [heapCell]

theorem fields : h'.fields (ρ.cell r) = ρ.bindings (h.fields r) := by
  unfold Heap.fields
  rw [hc.cells.held]
  cases h.cells[r]? with
  | none => rfl
  | some c => cases c <;> rfl

theorem textOf : h'.textOf (ρ.cell r) = h.textOf r := by
  unfold Heap.textOf
  rw [hc.cells.held]
  cases h.cells[r]? with
  | none => rfl
  | some c => cases c <;> rfl

theorem cursor : h'.cursor (ρ.cell r) = ρ.cursor (h.cursor r) := by
  unfold Heap.cursor
  rw [hc.cells.held]
  cases h.cells[r]? with
  | none => rfl
  | some c => cases c <;> rfl

theorem loopState : h'.loopState (ρ.cell r) = ρ.loopState (h.loopState r) := by
  unfold Heap.loopState
  rw [hc.cells.held]
  cases h.cells[r]? with
  | none => rfl
  | some c => cases c <;> rfl

theorem closure? : h'.closure? (ρ.cell r) = (h.closure? r).map ρ.closure := by
  unfold Heap.closure?
  rw [hc.cells.held]
  cases h.cells[r]? with
  | none => rfl
  | some c => cases c <;> rfl

theorem title : (h'.closure? (ρ.cell r)).elim "" (·.title) =
    (h.closure? r).elim "" (·.title) := by
  rw [hc.closure?]
  cases h.closure? r with
  | none => rfl
  | some c => rfl

end Reading

end Carries

end Renaming

end Stencil
