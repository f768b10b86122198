import Stencil.Proofs.CarriedRenders
import Stencil.Proofs.SafeActions

/-!
# Spare cells

A heap may get cells that no value of it refers to. It carries all it had without them, where what
is made later comes to lie behind them, and whatever runs there leaves the spare cells as they are.
-/

namespace Stencil

/-- Both actions deliver the same up to `f`, in worlds that are related, or both stop. -/
inductive Accord {α β : Type} (f : α → β) (R : World → World → Prop) :
    EStateM.Result Stop World α → EStateM.Result Stop World β → Prop
  | ok {a : α} {w w' : World} (h : R w w') : Accord f R (.ok a w) (.ok (f a) w')
  | error {s s' : Stop} {w w' : World} : Accord f R (.error s w) (.error s' w')

namespace Renaming

section Values

variable {ρ ρ₁ ρ₂ ρ₃ : Renaming}

mutual

/-- A value stays the same if the cells it refers to stay where they are. -/
theorem value_fixed : ∀ {v : Value}, (∀ x ∈ v.references, ρ.cell x.2 = x.2) → ρ.value v = v
  | .tuple items, h => congrArg Value.tuple (values_fixed h)
  | .slice a b c, h => by
    have h₁ := value_fixed (v := a) fun x hx =>
      h x (List.mem_append_left _ (List.mem_append_left _ hx))
    have h₂ := value_fixed (v := b) fun x hx =>
      h x (List.mem_append_left _ (List.mem_append_right _ hx))
    have h₃ := value_fixed (v := c) fun x hx => h x (List.mem_append_right _ hx)
    rw [value, h₁, h₂, h₃]
  | .method v name, h => congrArg (Value.method · name) (value_fixed h)
  | .generic b v, h => congrArg (Value.generic b) (value_fixed h)
  | .list r, h => congrArg Value.list (h (.list, r) List.mem_cons_self)
  | .dict r, h => congrArg Value.dict (h (.dict, r) List.mem_cons_self)
  | .set r, h => congrArg Value.set (h (.set, r) List.mem_cons_self)
  | .view kind r, h => congrArg (Value.view kind) (h (.dict, r) List.mem_cons_self)
  | .row r, h => congrArg Value.row (h (.dict, r) List.mem_cons_self)
  | .iterator kind r, h => congrArg (Value.iterator kind) (h (.iterator, r) List.mem_cons_self)
  | .object r, h => congrArg Value.object (h (.object, r) List.mem_cons_self)
  | .textual r, h => congrArg Value.textual (h (.textual, r) List.mem_cons_self)
  | .loop r, h => congrArg Value.loop (h (.loop, r) List.mem_cons_self)
  | .function r, h => congrArg Value.function (h (.function, r) List.mem_cons_self)
  | .none, _ | .ellipsis, _ | .undefined, _ | .bool _, _ | .int _, _ | .float _, _
  | .complex _ _, _ | .str _, _ | .bytes _, _ | .range _ _ _, _ | .builtin _, _ | .host _, _
  | .unboundMethod _ _, _ | .typeOf _, _ => rfl

theorem values_fixed : ∀ {vs : List Value}, (∀ x ∈ Value.referencesOf vs, ρ.cell x.2 = x.2) →
    ρ.values vs = vs
  | [], _ => rfl
  | v :: vs, h => by
    rw [values, value_fixed fun x hx => h x (List.mem_append_left _ hx),
      values_fixed fun x hx => h x (List.mem_append_right _ hx)]

end

mutual

/-- Renaming twice is renaming once, to where the cells come to be. -/
theorem value_value (hcell : ∀ r, ρ₂.cell (ρ₁.cell r) = ρ₃.cell r) :
    ∀ v : Value, ρ₂.value (ρ₁.value v) = ρ₃.value v
  | .tuple items => congrArg Value.tuple (values_values hcell items)
  | .slice a b c => by
    rw [value, value, value, value_value hcell a, value_value hcell b, value_value hcell c]
  | .method v name => congrArg (Value.method · name) (value_value hcell v)
  | .generic b v => congrArg (Value.generic b) (value_value hcell v)
  | .list r => congrArg Value.list (hcell r)
  | .dict r => congrArg Value.dict (hcell r)
  | .set r => congrArg Value.set (hcell r)
  | .view kind r => congrArg (Value.view kind) (hcell r)
  | .row r => congrArg Value.row (hcell r)
  | .iterator kind r => congrArg (Value.iterator kind) (hcell r)
  | .object r => congrArg Value.object (hcell r)
  | .textual r => congrArg Value.textual (hcell r)
  | .loop r => congrArg Value.loop (hcell r)
  | .function r => congrArg Value.function (hcell r)
  | .none | .ellipsis | .undefined | .bool _ | .int _ | .float _ | .complex _ _ | .str _
  | .bytes _ | .range _ _ _ | .builtin _ | .host _ | .unboundMethod _ _ | .typeOf _ => rfl

theorem values_values (hcell : ∀ r, ρ₂.cell (ρ₁.cell r) = ρ₃.cell r) :
    ∀ vs : List Value, ρ₂.values (ρ₁.values vs) = ρ₃.values vs
  | [] => rfl
  | v :: vs => by
    rw [values, values, values, value_value hcell v, values_values hcell vs]

end

end Values

section Fixed

variable {ρ : Renaming} {α : Type} [Refers α]

def Fixes (ρ : Renaming) (a : α) : Prop := ∀ x ∈ refs a, ρ.cell x.2 = x.2

theorem map_fixed {f : α → α} (hf : ∀ a, ρ.Fixes a → f a = a) {as : List α} (h : ρ.Fixes as) :
    as.map f = as := by
  refine (List.map_congr_left fun a ha => hf a fun x hx => ?_).trans (List.map_id as)
  exact h x (List.mem_flatMap.mpr ⟨a, ha, hx⟩)

theorem mapArray_fixed {f : α → α} (hf : ∀ a, ρ.Fixes a → f a = a) {as : Array α}
    (h : ρ.Fixes as) : as.map f = as := by
  rw [← Array.toList_inj, Array.toList_map]
  exact map_fixed hf h

theorem entry_fixed (e : Value × Value) (h : ρ.Fixes e) : ρ.entry e = e :=
  Prod.ext (value_fixed fun x hx => h x (List.mem_append_left _ hx))
    (value_fixed fun x hx => h x (List.mem_append_right _ hx))

theorem bindings_fixed {κ : Type} [Refers κ] (b : BindingsOf κ) (h : ρ.Fixes b) :
    ρ.bindings b = b := by
  refine map_fixed (fun e he => ?_) h
  have hvalue : ρ.value e.2 = e.2 := value_fixed fun x hx => he x (List.mem_append_right _ hx)
  exact Prod.ext rfl hvalue

theorem renderData_fixed (d : RenderData) (h : ρ.Fixes d) : ρ.renderData d = d := by
  unfold renderData
  rw [bindings_fixed d.names fun x hx => h x (List.mem_append_left _ hx),
    map_fixed (fun v hv => value_fixed hv) fun x hx => h x (List.mem_append_right _ hx)]

theorem cursor_fixed (hscope : ∀ s, ρ.scope s = s) (c : Cursor) (h : ρ.Fixes c) :
    ρ.cursor c = c := by
  have hvalues {vs : List Value} (hvs : ρ.Fixes vs) : vs.map ρ.value = vs :=
    map_fixed (fun v hv => value_fixed hv) hvs
  cases c with
  | done => rfl
  | list r i => exact congrArg (Cursor.list · i) (h _ List.mem_cons_self)
  | listBackward r i => exact congrArg (Cursor.listBackward · i) (h _ List.mem_cons_self)
  | items rest => exact congrArg Cursor.items (hvalues h)
  | set r i size => exact congrArg (Cursor.set · i size) (h _ List.mem_cons_self)
  | dict kind r i size => exact congrArg (Cursor.dict kind · i size) (h _ List.mem_cons_self)
  | dictBackward kind r i size =>
    exact congrArg (Cursor.dictBackward kind · i size) (h _ List.mem_cons_self)
  | range next step remaining => rfl
  | enumerate inner i => exact congrArg (Cursor.enumerate · i) (value_fixed h)
  | zip inner strict => exact congrArg (Cursor.zip · strict) (hvalues h)
  | subscripts v i => exact congrArg (Cursor.subscripts · i) (value_fixed h)
  | comprehension c =>
    have hc : ρ.comprehension c = c := by
      unfold comprehension
      rw [hscope, hvalues h]
    exact congrArg Cursor.comprehension hc
  | loop r i => exact congrArg (Cursor.loop · i) (h _ List.mem_cons_self)

theorem heapCell_fixed (hscope : ∀ s, ρ.scope s = s) (c : Cell) (h : ρ.Fixes c) :
    ρ.heapCell c = c := by
  cases c with
  | list items => exact congrArg Cell.list (mapArray_fixed (fun v hv => value_fixed hv) h)
  | dict entries => exact congrArg Cell.dict (mapArray_fixed entry_fixed h)
  | set items => exact congrArg Cell.set (mapArray_fixed (fun v hv => value_fixed hv) h)
  | object fields => exact congrArg Cell.object (bindings_fixed fields h)
  | textual s => rfl
  | iterator c => exact congrArg Cell.iterator (cursor_fixed hscope c h)
  | loop s =>
    have hitems : ρ.cell s.items = s.items := h _ List.mem_cons_self
    have hparent : s.parent.map ρ.cell = s.parent := by
      cases hp : s.parent with
      | none => rfl
      | some r =>
        refine congrArg some (h (.loop, r) (List.mem_cons_of_mem _ ?_))
        rw [hp]
        exact List.mem_cons_self
    have hs : ρ.loopState s = s := by
      unfold loopState
      rw [hitems, hparent]
    exact congrArg Cell.loop hs
  | function c =>
    have hc : ρ.closure c = c := by
      unfold closure
      rw [hscope, bindings_fixed c.keywordDefaults fun x hx => h x (List.mem_append_right _ hx),
        map_fixed (fun v hv => value_fixed hv) fun x hx => h x (List.mem_append_left _ hx)]
    exact congrArg Cell.function hc

mutual

theorem loader_fixed : ∀ l : Loader, (∀ x ∈ l.references, ρ.cell x.2 = x.2) → ρ.loader l = l
  | .files _, _ | .table _, _ | .shouting, _ => rfl
  | .choice ls, h => congrArg Loader.choice (loaders_fixed ls h)
  | .lookup views, h => congrArg Loader.lookup (bindings_fixed views h)
  | .callback _, h => congrArg Loader.callback (value_fixed h)
  | .custom _, h => congrArg Loader.custom (value_fixed h)

theorem loaders_fixed : ∀ ls : List Loader, (∀ x ∈ Loader.referencesOf ls, ρ.cell x.2 = x.2) →
    ρ.loaders ls = ls
  | [], _ => rfl
  | l :: ls, h => by
    rw [loaders, loader_fixed l fun x hx => h x (List.mem_append_left _ hx),
      loaders_fixed ls fun x hx => h x (List.mem_append_right _ hx)]

end

theorem environment_fixed (env : Environment) (h : ρ.Fixes env) : ρ.environment env = env := by
  have hloader : env.loader.map ρ.loader = env.loader := by
    cases hl : env.loader with
    | none => rfl
    | some l =>
      refine congrArg some (loader_fixed l fun x hx => h x (List.mem_append_left _ ?_))
      rw [hl]
      exact List.mem_append_left _ hx
  unfold environment
  rw [hloader,
    bindings_fixed env.globals fun x hx =>
      h x (List.mem_append_right _ (List.mem_append_left _ hx)),
    bindings_fixed env.shared fun x hx =>
      h x (List.mem_append_right _ (List.mem_append_right _ hx))]

end Fixed

section Sparing

variable {ρ : Renaming} {h h' h₀ : Heap}

open Classical in
/-- The same places, where the cells that a heap has beside them are spare. -/
noncomputable def sparing (ρ : Renaming) (h₀ : Heap) : Renaming :=
  { ρ with
    spare := fun r => if ∀ q, ρ.cell q ≠ r then h₀.cells[r]? else none
    spare_apart := fun {r c} hr => by
      by_cases hapart : ∀ q, ρ.cell q ≠ r
      · exact hapart
      · rw [if_neg hapart] at hr
        cases hr }

/-- All cells stay where they are. -/
def unmoved : Renaming where
  cell := id
  frame := id
  data := id
  place _ := id
  exact := True
  cell_lt := id
  frame_injective := Function.injective_id
  place_injective _ := Function.injective_id
  place_exact := places_left

theorem unmoved_value (v : Value) : unmoved.value v = v := value_fixed fun _ _ => rfl

theorem sparing_value : (ρ.sparing h₀).value = ρ.value := by
  funext v
  rw [← unmoved_value ((ρ.sparing h₀).value v)]
  exact value_value (fun _ => rfl) v

theorem sparing_bindings {κ : Type} (b : BindingsOf κ) :
    (ρ.sparing h₀).bindings b = ρ.bindings b := by
  unfold bindings binding
  rw [sparing_value]

theorem sparing_cursor (c : Cursor) : (ρ.sparing h₀).cursor c = ρ.cursor c := by
  cases c with
  | comprehension c =>
    simp only [cursor, comprehension, sparing_value]
    rfl
  | items rest => simp only [cursor, sparing_value]
  | enumerate inner index => simp only [cursor, sparing_value]
  | zip inner strict => simp only [cursor, sparing_value]
  | subscripts v index => simp only [cursor, sparing_value]
  | _ => rfl

theorem sparing_heapCell : (ρ.sparing h₀).heapCell = ρ.heapCell := by
  funext c
  cases c with
  | list items => simp only [heapCell, sparing_value]
  | set items => simp only [heapCell, sparing_value]
  | dict entries =>
    have hentry : (ρ.sparing h₀).entry = ρ.entry := by
      unfold entry
      rw [sparing_value]
    simp only [heapCell, hentry]
  | object fields => exact congrArg Cell.object (sparing_bindings fields)
  | iterator c => exact congrArg Cell.iterator (sparing_cursor c)
  | function c =>
    simp only [heapCell, closure, sparing_value, sparing_bindings]
    rfl
  | textual s => rfl
  | loop s => rfl

theorem sparing_renderData : (ρ.sparing h₀).renderData = ρ.renderData := by
  funext d
  simp only [renderData, sparing_value, sparing_bindings]

def Beside (ρ : Renaming) (h h' : Heap) : Prop :=
  ∀ r c, (∀ q, ρ.cell q ≠ r) → h.cells[r]? = some c → h'.cells[r]? = some c

theorem Carries.sparing (hc : ρ.Carries h h') : (ρ.sparing h').Carries h h' where
  cells := ⟨fun r => sparing_heapCell (ρ := ρ) ▸ hc.cells.held r, hc.cells.next⟩
  data := ⟨fun r => sparing_renderData (ρ := ρ) ▸ hc.data.held r, hc.data.next⟩
  assigned r x v hx := sparing_value (ρ := ρ) ▸ hc.assigned r x v hx
  unassigned := hc.unassigned
  framed := hc.framed
  nextFrame := hc.nextFrame
  nextPlace := hc.nextPlace
  spared r c hr := by
    by_cases hapart : ∀ q, ρ.cell q ≠ r
    · exact (if_pos hapart).symm.trans hr
    · cases (if_neg hapart).symm.trans hr

theorem Carries.of_sparing (hspare : ρ.spare = fun _ => none)
    (hc : (ρ.sparing h₀).Carries h h') : ρ.Carries h h' ∧ ρ.Beside h₀ h' where
  left := {
    cells := ⟨fun r => sparing_heapCell (ρ := ρ) ▸ hc.cells.held r, hc.cells.next⟩
    data := ⟨fun r => sparing_renderData (ρ := ρ) ▸ hc.data.held r, hc.data.next⟩
    assigned := fun r x v hx => sparing_value (ρ := ρ) ▸ hc.assigned r x v hx
    unassigned := hc.unassigned
    framed := hc.framed
    nextFrame := hc.nextFrame
    nextPlace := hc.nextPlace
    spared := fun r c hr => by
      rw [hspare] at hr
      cases hr }
  right r c hapart hr := hc.spared r c ((if_pos hapart).trans hr)

/-- What follows, whatever cells are spare, leaves alone those that the heap has beside. -/
theorem Follows.sparing {α : Type} {x y : Action α} {w w' : World}
    (hfollows : (ρ.sparing w'.heap).Follows id w.heap.frames x y)
    (hspare : ρ.spare = fun _ => none) (hexact : ρ.exact) (hw : ρ.Worlds w w') :
    Accord id (fun w₁ w₁' => ρ.Worlds w₁ w₁' ∧ ρ.Beside w'.heap w₁'.heap ∧
      Grows w.heap.frames w₁.heap.frames) (x.run w) (y.run w') := by
  have hbounds {ρ ρ' : Renaming} {b b' : Option Boundary} (hb : Option.Rel ρ.Bounds b b')
      (hlined : ρ'.lined → ρ.lined) : Option.Rel ρ'.Bounds b b' := by
    cases hb with
    | none => exact .none
    | some hb => exact .some ⟨fun h => hb.same (hlined h), hb.level⟩
  have hends := hfollows w w' ⟨hw.heap.sparing, hbounds hw.boundary fun h => h⟩ (.refl _)
  generalize x.run w = r, y.run w' = r' at hends ⊢
  cases hends with
  | ok hw₁ hg =>
    obtain ⟨hc, hbeside⟩ := Carries.of_sparing hspare hw₁.heap
    exact .ok ⟨⟨hc, hbounds hw₁.boundary fun h => h⟩, hbeside, hg⟩
  | error hw₁ hg hs => exact .error
  | lost hinexact hs => exact absurd hexact hinexact

/-- A cell beside may be written without the first heap's knowing. -/
theorem Carries.setBeside (hc : ρ.Carries h h') (hspare : ρ.spare = fun _ => none) {r : Ref}
    (hapart : ∀ q, ρ.cell q ≠ r) (c : Cell) :
    ρ.Carries h { h' with cells := h'.cells.setIfInBounds r c } :=
  { hc with
    cells := {
      held := fun q => by
        rw [Array.getElem?_setIfInBounds_ne (Ne.symm (hapart q))]
        exact hc.cells.held q
      next := fun i => by
        rw [Array.size_setIfInBounds]
        exact hc.cells.next i }
    spared := fun q c hq => by
      rw [hspare] at hq
      cases hq }

end Sparing

def shifted (n k r : Nat) : Nat := if r < n then r else r + k

theorem shifted_of_lt {n r : Nat} (k : Nat) (h : r < n) : shifted n k r = r := if_pos h

theorem shifted_add (n k i : Nat) : shifted n k (n + i) = n + k + i := by
  rw [shifted, if_neg (Nat.not_lt.mpr (Nat.le_add_right n i)), Nat.add_right_comm]

theorem shifted_lt {n k a b : Nat} (h : a < b) : shifted n k a < shifted n k b := by
  unfold shifted
  split <;> split <;> omega

theorem shifted_apart {n k r : Nat} (h : n ≤ r ∧ r < n + k) (q : Nat) : shifted n k q ≠ r := by
  unfold shifted
  split <;> omega

theorem shifted_shifted (n k k' r : Nat) :
    shifted (n + k) k' (shifted n k r) = shifted n (k + k') r := by
  unfold shifted
  split <;> split <;> omega

/-- There are `k` cells more from `n` on. Nothing else has moved, but lines are not kept. -/
def past (n k : Nat) : Renaming where
  cell := shifted n k
  frame := id
  data := id
  place _ := id
  exact := True
  lined := False
  cell_lt := shifted_lt
  frame_injective := Function.injective_id
  place_injective _ := Function.injective_id
  place_exact := places_left
  lined_exact := False.elim

theorem past_past (n k k' : Nat) (v : Value) :
    (past (n + k) k').value ((past n k).value v) = (past n (k + k')).value v :=
  value_value (fun r => shifted_shifted n k k' r) v

theorem past_zero (n : Nat) (v : Value) : (past n 0).value v = v := by
  refine value_fixed fun x _ => ?_
  change shifted n 0 x.2 = x.2
  rw [shifted, Nat.add_zero, ite_self]

theorem scope_unmoved {ρ : Renaming} (hframe : ρ.frame = id) (hdata : ρ.data = id)
    (hplace : ρ.place = fun _ => id) (s : Scope) : ρ.scope s = s := by
  have hloops : ρ.loopScope s.frame = id := by
    funext l
    unfold loopScope
    rw [hplace]
    rfl
  have hlocals : ρ.localScope = id := by
    funext l
    unfold localScope
    rw [hframe]
    rfl
  unfold scope
  rw [hloops, hlocals, hframe, hdata, List.map_id, List.map_id]
  rfl

section Past

variable {h : Heap}

theorem past_fixes {α : Type} [Refers α] {a : α} (ha : Suits h a) (k : Nat) :
    (past h.cells.size k).Fixes a := by
  intro x hx
  obtain ⟨-, c, hc, -⟩ := ha x hx
  exact shifted_of_lt k (Array.getElem?_eq_some_iff.mp hc).1

/-- A sound heap that gets more cells carries what it had. -/
theorem past_carries (hs : h.IsSound) (more : Array Cell) :
    (past h.cells.size more.size).Carries h { h with cells := h.cells ++ more } where
  cells := {
    held := by
      intro r
      change (h.cells ++ more)[shifted h.cells.size more.size r]? = _
      by_cases hr : r < h.cells.size
      · rw [shifted_of_lt _ hr, Array.getElem?_append_left hr]
        cases hc : h.cells[r]? with
        | none => rfl
        | some c =>
          exact congrArg some (heapCell_fixed (scope_unmoved rfl rfl rfl) c
            (past_fixes (hs.cells hc) _)).symm
      · have hsize : (h.cells ++ more).size ≤ shifted h.cells.size more.size r := by
          rw [shifted, if_neg hr, Array.size_append]
          omega
        rw [Array.getElem?_eq_none hsize, Array.getElem?_eq_none (Nat.le_of_not_lt hr)]
        rfl
    next := by
      intro i
      rw [Array.size_append]
      exact shifted_add _ _ i }
  data := {
    held := by
      intro r
      change h.data[r]? = h.data[r]?.map _
      cases hd : h.data[r]? with
      | none => rfl
      | some d =>
        have hfits := hs.data r
        rw [Array.getD_eq_getD_getElem?, hd] at hfits
        exact congrArg some (renderData_fixed d (past_fixes hfits _)).symm
    next := fun _ => rfl }
  assigned r x v hx := by
    rw [var_eq rfl, value_fixed (past_fixes (hs.values hx) _)]
    exact hx
  unassigned _ r x hx := by
    rw [var_eq rfl]
    exact hx
  framed _ hr := hr
  nextFrame _ := rfl
  nextPlace _ := rfl
  spared _ _ := nofun

end Past

end Renaming

end Stencil
