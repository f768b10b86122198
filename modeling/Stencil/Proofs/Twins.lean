import Stencil.Proofs.Likeness
import Stencil.Proofs.Occurrences

/-!
# Twin runs

Two evaluations run side by side, on heaps that differ in the render data and in what the scopes
of functions and generators are told about missing names. A `Leeway` says how far the runs may
differ and which expressions they may come to: in data, in the names offered for a missing one,
in which loops count their passes, and in that the first run may be lost, after which nothing is
asked of the second. `Twin` says that the two evaluations end alike on all such heaps.
-/

namespace Stencil

namespace BindingsOf

variable {κ : Type} [DecidableEq κ]

theorem get?_cons (b : BindingsOf κ) (key : κ) (v : Value) (k : κ) :
    get? ((key, v) :: b) k = if k = key then some v else b.get? k := by
  unfold get?
  rw [List.lookup_cons]
  by_cases hk : k = key
  · rw [if_pos hk, beq_iff_eq.mpr hk]
  · rw [if_neg hk, beq_false_of_ne hk]

theorem get?_put (b : BindingsOf κ) (key : κ) (v : Value) (k : κ) :
    (b.put key v).get? k = if k = key then some v else b.get? k := by
  induction b with
  | nil => exact get?_cons [] key v k
  | cons e b ih =>
    obtain ⟨k', w⟩ := e
    unfold put
    by_cases hk' : k' = key
    · rw [if_pos hk', get?_cons, get?_cons, hk']
      by_cases hk : k = key
      · rw [if_pos hk, if_pos hk]
      · rw [if_neg hk, if_neg hk, if_neg hk]
    · rw [if_neg hk', get?_cons, get?_cons, ih]
      by_cases hk : k = k'
      · rw [if_pos hk, if_pos hk, if_neg (hk ▸ hk')]
      · rw [if_neg hk, if_neg hk]

end BindingsOf

def Assigned (frames : Array Frame) (r : Ref) (x : Variable) : Prop :=
  ((frames.getD r []).get? x).isSome = true

theorem assigned_push (frames : Array Frame) (b : Frame) (r : Ref) (x : Variable) :
    Assigned (frames.push b) r x ↔
      r = frames.size ∧ (b.get? x).isSome = true ∨ Assigned frames r x := by
  unfold Assigned
  rw [Array.getD_eq_getD_getElem?, Array.getD_eq_getD_getElem?, Array.getElem?_push]
  by_cases hr : r = frames.size
  · have hnone : frames[r]? = none := Array.getElem?_eq_none (hr ▸ Nat.le_refl _)
    rw [if_pos hr, hnone]
    exact ⟨fun h => .inl ⟨hr, h⟩, fun h => h.elim And.right nofun⟩
  · rw [if_neg hr]
    exact ⟨.inr, fun h => h.elim (fun h => absurd h.1 hr) id⟩

theorem assigned_bind (frames : Array Frame) (r' : Ref) (y : Variable) (v : Value) (r : Ref)
    (x : Variable) : Assigned (frames.modify r' (·.put y v)) r x ↔
      (r = r' ∧ x = y ∧ r < frames.size) ∨ Assigned frames r x := by
  unfold Assigned
  rw [Array.getD_eq_getD_getElem?, Array.getD_eq_getD_getElem?, Array.getElem?_modify]
  by_cases hr : r' = r
  · rw [if_pos hr]
    by_cases hlt : r < frames.size
    · rw [Array.getElem?_eq_getElem hlt]
      change ((frames[r].put y v).get? x).isSome = true ↔ _ ∨ (frames[r].get? x).isSome = true
      rw [BindingsOf.get?_put]
      by_cases hx : x = y
      · rw [if_pos hx]
        exact iff_of_true rfl (.inl ⟨hr.symm, hx, hlt⟩)
      · rw [if_neg hx]
        exact ⟨.inr, fun h => h.elim (fun h => absurd h.2.1 hx) id⟩
    · rw [Array.getElem?_eq_none (Nat.le_of_not_lt hlt)]
      exact ⟨.inr, fun h => h.elim (fun h => absurd h.2.2 hlt) id⟩
  · rw [if_neg hr]
    exact ⟨.inr, fun h => h.elim (fun h => absurd h.1.symm hr) id⟩

/-- Frames only ever gain variables, and there are ever more of them. -/
structure Grows (before after : Array Frame) : Prop where
  size : before.size ≤ after.size
  assigned : ∀ r x, Assigned before r x → Assigned after r x

theorem Grows.refl (frames : Array Frame) : Grows frames frames := ⟨Nat.le_refl _, fun _ _ h => h⟩

theorem Grows.trans {a b c : Array Frame} (h : Grows a b) (h' : Grows b c) : Grows a c :=
  ⟨Nat.le_trans h.size h'.size, fun r x hx => h'.assigned r x (h.assigned r x hx)⟩

theorem grows_push (frames : Array Frame) (b : Frame) : Grows frames (frames.push b) where
  size := by
    rw [Array.size_push]
    exact Nat.le_succ _
  assigned r x h := (assigned_push frames b r x).mpr (.inr h)

theorem grows_bind (frames : Array Frame) (r : Ref) (x : Variable) (v : Value) :
    Grows frames (frames.modify r (·.put x v)) where
  size := Nat.le_of_eq (Array.size_modify ..).symm
  assigned r' y h := (assigned_bind frames r x v r' y).mpr (.inr h)

def LoopScope.Binds (l : LoopScope) (id : String) : Prop :=
  l.names.contains id = true ∨ l.counted = true ∧ id = "loop"

/-- The loop that gives a name its meaning is the innermost that binds it. -/
theorem LoopScope.binds_iff {l : LoopScope} {id : String} :
    l.Binds id ↔ (l.names.contains id || (l.counted && id = "loop")) = true := by
  unfold Binds
  rw [Bool.or_eq_true, Bool.and_eq_true, decide_eq_true_iff]

/-- Every variable that a name can mean in the scope has a value. -/
structure Scope.Ready (frames : Array Frame) (s : Scope) : Prop where
  frame : s.frame < frames.size
  loops : ∀ l ∈ s.loops, ∀ id, l.Binds id → Assigned frames s.frame (.ofLoop l.position id)
  locals : ∀ l ∈ s.locals, ∀ id ∈ l.active, id ∈ l.bound ∧ Assigned frames l.frame (.own id)

theorem Scope.Ready.mono {before after : Array Frame} {s : Scope} (h : s.Ready before)
    (hg : Grows before after) : s.Ready after where
  frame := Nat.lt_of_lt_of_le h.frame hg.size
  loops l hl id hid := hg.assigned _ _ (h.loops l hl id hid)
  locals l hl id hid := ⟨(h.locals l hl id hid).1, hg.assigned _ _ (h.locals l hl id hid).2⟩

/-- The variables of a comprehension that the first `n` clauses bind have values, and so have
those around it. -/
structure Comprehension.Ready (frames : Array Frame) (c : Comprehension) (n : Nat) : Prop where
  outer : { c.scope with locals := c.scope.locals.tail }.Ready frames
  frame : c.frame < frames.size
  targets : ∀ i < n, ∀ clause, c.clauses[i]? = some clause → ∀ id ∈ clause.target.storedNames,
    Assigned frames c.frame (.own id)

theorem Comprehension.Ready.mono {before after : Array Frame} {c : Comprehension} {m n : Nat}
    (h : c.Ready before n) (hg : Grows before after) (hmn : m ≤ n) : c.Ready after m where
  outer := h.outer.mono hg
  frame := Nat.lt_of_lt_of_le h.frame hg.size
  targets i hi clause hclause id hid :=
    hg.assigned _ _ (h.targets i (Nat.lt_of_lt_of_le hi hmn) clause hclause id hid)

def Expr.HasNameTargets (e : Expr) : Prop :=
  ∀ product clauses, e.comprehension? = some (product, clauses) →
    ∀ c ∈ clauses, c.target.isNames = true

/-- How far two runs may differ in which loops count their passes. -/
structure Tally where
  /-- What scopes of a frame may be told of the loops around them. -/
  loops : Ref → List LoopScope → List LoopScope → Prop
  frames : Array Frame → Array Frame → Prop
  /-- Scopes of the frame may be told different things. -/
  apart : Ref → Prop
  /-- The frame was there before the runs. -/
  held : Ref → Prop := apart
  /-- The runs have the variable in common. -/
  shared : Ref → Variable → Prop
  refl : ∀ r outer, loops r outer outer
  cons : ∀ {r outer outer'} loop, loops r outer outer' → loops r (loop :: outer) (loop :: outer')
  together : ∀ {r outer outer'}, ¬ apart r → loops r outer outer' → outer' = outer
  shared_own : ∀ r name, shared r (.own name)
  shared_of : ∀ {r} x, ¬ apart r → shared r x
  size_eq : ∀ {f f'}, frames f f' → f'.size = f.size
  agree : ∀ {f f' r x}, frames f f' → shared r x →
    (f'.getD r []).get? x = (f.getD r []).get? x
  push : ∀ {f f'} b, frames f f' → frames (f.push b) (f'.push b)
  bind : ∀ {f f'} r x v, frames f f' →
    frames (f.modify r (·.put x v)) (f'.modify r (·.put x v))
  apart_held : ∀ {r}, apart r → held r := by exact id
  made : ∀ {f f' r}, frames f f' → f.size ≤ r → ¬ held r

def Tally.even : Tally where
  loops _ outer outer' := outer' = outer
  frames f f' := f' = f
  apart _ := False
  shared _ _ := True
  refl _ _ := rfl
  cons loop h := congrArg (loop :: ·) h
  together _ h := h
  shared_own _ _ := trivial
  shared_of _ _ := trivial
  size_eq h := congrArg Array.size h
  agree h _ := by rw [h]
  push b h := congrArg (·.push b) h
  bind r x v h := congrArg (·.modify r (·.put x v)) h
  made _ _ := id

structure Leeway where
  /-- Scopes may be told different things about missing names. -/
  modes : Bool → Bool → Prop
  /-- An expression may be come to, with render data, in a frame and inside loops and local scopes;
  if it is `tracked`, all variables that are visible to it have values. -/
  allows : (tracked : Bool) → (data frame : Ref) → List LoopScope → List Shade → Expr → Prop
  data : Array RenderData → Array RenderData → Prop
  /-- Different names may be offered for a missing one. -/
  offers : Prop
  /-- The first run may be given up at this halt. -/
  lost : Array RenderData → Halt → Prop
  tally : Tally := .even
  /-- Code is only come to in frames that are there. -/
  framed : Prop := False
  size_eq : ∀ {d d'}, data d d' → d.size = d'.size
  push : ∀ {d d'} x, data d d' → data (d.push x) (d'.push x)
  /-- Variables can only be tracked where all targets are names. -/
  names : ∀ {data frame loops context e}, allows true data frame loops context e →
    e.HasNameTargets
  /-- A generator does not change the halt. -/
  lost_inside : ∀ {d f}, lost d (.fault f) → lost d (.fault (Evaluator.insideGenerator f))
  lost_told : ∀ {d f}, lost d (.fault f) → f.inWriting? = none

namespace Leeway

theorem size_of_same {d d' : Array RenderData} (h : d' = d) : d.size = d'.size :=
  congrArg Array.size h.symm

theorem push_of_same {d d' : Array RenderData} (x : RenderData) (h : d' = d) :
    d'.push x = d.push x := congrArg (·.push x) h

theorem names_of_untracked {e : Expr} (h : true = false) : e.HasNameTargets :=
  Bool.noConfusion h

theorem told_of_never {f : Fault} (h : False) : f.inWriting? = none := h.elim

end Leeway

section Relations

variable (l : Leeway)

/-- The same scope, but for what it is told about missing names and about the loops around it. -/
inductive Scope.Twin (s : Scope) : Scope → Prop
  | told {mode : Bool} {loops : List LoopScope} (h : l.modes s.lenient mode)
      (hloops : l.tally.loops s.frame s.loops loops) :
      Scope.Twin s { s with lenient := mode, loops }

def Leeway.Admits (tracked : Bool) (s : Scope) (e : Expr) : Prop :=
  ∀ context f, Expr.Holds s.context e context f → l.allows tracked s.data s.frame s.loops context f

structure Leeway.Fits (tracked : Bool) (frames : Array Frame) (s : Scope) (e : Expr) : Prop where
  admits : l.Admits tracked s e
  ready : tracked = true → s.Ready frames
  framed : l.framed → s.frame < frames.size

structure Closure.Fits (tracked : Bool) (frames : Array Frame) (c : Closure) : Prop where
  admits : ∀ context f,
    Expr.Holds (.ofParameters c.parameters :: c.scope.context) c.body context f →
      l.allows tracked c.scope.data c.scope.frame c.scope.loops context f
  ready : tracked = true → c.scope.Ready frames
  framed : l.framed → c.scope.frame < frames.size

/-- A comprehension may go on, where the variables of the first `n` clauses have values. -/
structure Comprehension.Fits (tracked : Bool) (frames : Array Frame) (n : Nat)
    (c : Comprehension) : Prop where
  own : tracked = true → ∃ s rest, c.scope.locals = s :: rest ∧
    s.bound = c.clauses.flatMap (·.target.storedNames)
  admits : ∀ i e, Clause.Holds c.product c.clauses i e → l.Admits tracked (c.scopeAfter i) e
  names : tracked = true → ∀ clause ∈ c.clauses, clause.target.isNames = true
  ready : tracked = true → c.Ready frames n
  framed : l.framed → c.scope.frame < frames.size

/-- The same comprehension, which may go on from here, but for what its scope is told. -/
inductive Comprehension.Retold (tracked : Bool) (n : Nat) (frames : Array Frame)
    (c : Comprehension) : Comprehension → Prop
  | told {s : Scope} (hc : c.Fits l tracked frames n) (hs : c.scope.Twin l s) :
      Comprehension.Retold tracked n frames c { c with scope := s }

def Cell.IsInert : Cell → Prop
  | .function _ | .iterator (.comprehension _) => False
  | _ => True

inductive Cell.Twin (frames : Array Frame) : Cell → Cell → Prop
  | inert {c : Cell} (hc : c.IsInert) : Cell.Twin frames c c
  | function {tracked : Bool} {c : Closure} {s : Scope} (hc : c.Fits l tracked frames)
      (hs : c.scope.Twin l s) : Cell.Twin frames (.function c) (.function { c with scope := s })
  | generator {tracked : Bool} {c c' : Comprehension}
      (hc : c.Retold l tracked (c.iterators.length - 1) frames c') :
      Cell.Twin frames (.iterator (.comprehension c)) (.iterator (.comprehension c'))

structure Heap.Twin (h h' : Heap) : Prop where
  size : h.cells.size = h'.cells.size
  cells : ∀ (r : Ref) (c c' : Cell), h.cells[r]? = some c → h'.cells[r]? = some c' →
    c.Twin l h.frames c'
  frames : l.tally.frames h.frames h'.frames
  data : l.data h.data h'.data

inductive Halt.Twin : Halt → Halt → Prop
  | same (halt : Halt) : Halt.Twin halt halt
  | offered (ho : l.offers) (name : String) (available available' : List String) :
      Halt.Twin (.undefinedName name available) (.undefinedName name available')

variable {α β : Type}

/-- Two outcomes that differ no more than allowed, from `frames` on; `V` relates what they
deliver. -/
inductive Joined (V : Array Frame → α → β → Prop) (frames : Array Frame) :
    Outcome α → Outcome β → Prop
  | ok {a : α} {b : β} {h h' : Heap} (ht : h.Twin l h') (hg : Grows frames h.frames)
      (hv : V h.frames a b) : Joined V frames (.ok a h) (.ok b h')
  | error {halt halt' : Halt} {h h' : Heap} (ht : h.Twin l h') (hg : Grows frames h.frames)
      (hh : halt.Twin l halt') : Joined V frames (.error halt h) (.error halt' h')
  | lost {halt : Halt} {h : Heap} {r : Outcome β} (hl : l.lost h.data halt) :
      Joined V frames (.error halt h) r

/-- Wherever frames have grown from `frames`, the two evaluations end alike. -/
def Twin (V : Array Frame → α → β → Prop) (frames : Array Frame) (x : Eval α) (y : Eval β) :
    Prop :=
  ∀ n h h', h.Twin l h' → Grows frames h.frames → Joined l V h.frames (x.run n h) (y.run n h')

end Relations

def Same {α : Type} (_ : Array Frame) (a b : α) : Prop := a = b

def Such {α : Type} (P : Array Frame → α → Prop) (frames : Array Frame) (a b : α) : Prop :=
  a = b ∧ P frames a

section Heaps

variable {l : Leeway} {h h' : Heap}

namespace Leeway.Fits

variable {tracked : Bool} {s : Scope} {e f : Expr}

theorem mono {before after : Array Frame} (h : l.Fits tracked before s e)
    (hg : Grows before after) : l.Fits tracked after s e :=
  ⟨h.admits, fun ht => (h.ready ht).mono hg, fun hf => Nat.lt_of_lt_of_le (h.framed hf) hg.size⟩

theorem allowed {frames : Array Frame} (h : l.Fits tracked frames s e) :
    l.allows tracked s.data s.frame s.loops s.context e := h.admits _ _ .self

theorem part {frames : Array Frame} (h : l.Fits tracked frames s e) (hf : f ∈ e.parts) :
    l.Fits tracked frames s f :=
  ⟨fun context g hg => h.admits context g (.part hf hg), h.ready, h.framed⟩

end Leeway.Fits

theorem Comprehension.Fits.mono {tracked : Bool} {before after : Array Frame} {m n : Nat}
    {c : Comprehension} (hc : c.Fits l tracked before n) (hg : Grows before after) (hmn : m ≤ n) :
    c.Fits l tracked after m :=
  ⟨hc.own, hc.admits, hc.names, fun ht => (hc.ready ht).mono hg hmn,
    fun hf => Nat.lt_of_lt_of_le (hc.framed hf) hg.size⟩

theorem Closure.Fits.mono {tracked : Bool} {before after : Array Frame} {c : Closure}
    (hc : c.Fits l tracked before) (hg : Grows before after) : c.Fits l tracked after :=
  ⟨hc.admits, fun ht => (hc.ready ht).mono hg,
    fun hf => Nat.lt_of_lt_of_le (hc.framed hf) hg.size⟩

theorem Cell.Twin.mono {before after : Array Frame} {c c' : Cell} (ht : c.Twin l before c')
    (hg : Grows before after) : c.Twin l after c' := by
  cases ht with
  | inert hc => exact .inert hc
  | function hc hs => exact .function (hc.mono hg) hs
  | generator hc =>
    cases hc with
    | told hc hs => exact .generator (.told (hc.mono hg (Nat.le_refl _)) hs)

namespace Heap.Twin

/-- The cells at a place are twins, or there is none in either heap. -/
theorem cells_at (ht : h.Twin l h') (r : Ref) :
    h.cells[r]? = none ∧ h'.cells[r]? = none ∨
      ∃ c c', h.cells[r]? = some c ∧ h'.cells[r]? = some c' ∧ c.Twin l h.frames c' := by
  by_cases hr : r < h.cells.size
  · have hr' : r < h'.cells.size := ht.size ▸ hr
    have hc := Array.getElem?_eq_getElem hr
    have hc' := Array.getElem?_eq_getElem hr'
    exact .inr ⟨_, _, hc, hc', ht.cells r _ _ hc hc'⟩
  · have hr' : ¬ r < h'.cells.size := ht.size ▸ hr
    exact .inl ⟨Array.getElem?_eq_none (Nat.le_of_not_lt hr),
      Array.getElem?_eq_none (Nat.le_of_not_lt hr')⟩

/-- Functions and generators are told from each other by nothing that is shown of a place. -/
theorem looksLike_at (ht : h.Twin l h') (r : Ref) :
    h.listItems r = h'.listItems r ∧ h.dictEntries r = h'.dictEntries r ∧
      h.setItems r = h'.setItems r ∧ h.fields r = h'.fields r ∧ h.textOf r = h'.textOf r ∧
      h.loopState r = h'.loopState r ∧
      (h.closure? r).elim "" (·.title) = (h'.closure? r).elim "" (·.title) := by
  unfold Heap.listItems Heap.dictEntries Heap.setItems Heap.fields Heap.textOf Heap.loopState
    Heap.closure?
  rcases ht.cells_at r with ⟨hc, hc'⟩ | ⟨c, c', hc, hc', htwin⟩
  · rw [hc, hc']
    exact ⟨rfl, rfl, rfl, rfl, rfl, rfl, rfl⟩
  · rw [hc, hc']
    cases htwin with
    | inert hinert => exact ⟨rfl, rfl, rfl, rfl, rfl, rfl, rfl⟩
    | function hfits hs => exact ⟨rfl, rfl, rfl, rfl, rfl, rfl, rfl⟩
    | generator hround =>
      cases hround with
      | told hfits hs => exact ⟨rfl, rfl, rfl, rfl, rfl, rfl, rfl⟩

theorem looksLike (ht : h.Twin l h') : h.LooksLike h' where
  size := ht.size
  listItems := funext fun r => (ht.looksLike_at r).1
  dictEntries := funext fun r => (ht.looksLike_at r).2.1
  setItems := funext fun r => (ht.looksLike_at r).2.2.1
  fields := funext fun r => (ht.looksLike_at r).2.2.2.1
  textOf := funext fun r => (ht.looksLike_at r).2.2.2.2.1
  loopState := funext fun r => (ht.looksLike_at r).2.2.2.2.2.1
  title := funext fun r => (ht.looksLike_at r).2.2.2.2.2.2

theorem closure? (ht : h.Twin l h') (r : Ref) :
    h.closure? r = none ∧ h'.closure? r = none ∨
      ∃ (tracked : Bool) (c : Closure) (s : Scope), h.closure? r = some c ∧
        h'.closure? r = some { c with scope := s } ∧ c.Fits l tracked h.frames ∧
        c.scope.Twin l s := by
  unfold Heap.closure?
  rcases ht.cells_at r with ⟨hc, hc'⟩ | ⟨c, c', hc, hc', htwin⟩
  · rw [hc, hc']
    exact .inl ⟨rfl, rfl⟩
  · rw [hc, hc']
    cases htwin with
    | inert hinert =>
      cases c with
      | function c => exact hinert.elim
      | _ => exact .inl ⟨rfl, rfl⟩
    | function hfits hs => exact .inr ⟨_, _, _, rfl, rfl, hfits, hs⟩
    | generator hround => exact .inl ⟨rfl, rfl⟩

theorem cursor (ht : h.Twin l h') (r : Ref) :
    (Cell.iterator (h.cursor r)).Twin l h.frames (.iterator (h'.cursor r)) := by
  unfold Heap.cursor
  rcases ht.cells_at r with ⟨hc, hc'⟩ | ⟨c, c', hc, hc', htwin⟩
  · rw [hc, hc']
    exact .inert trivial
  · rw [hc, hc']
    cases htwin with
    | inert hinert =>
      cases c with
      | iterator c => exact .inert hinert
      | _ => exact .inert trivial
    | function hfits hs => exact .inert trivial
    | generator hround => exact .generator hround

theorem push (ht : h.Twin l h') {c c' : Cell} (hc : c.Twin l h.frames c') :
    ({ h with cells := h.cells.push c }).Twin l { h' with cells := h'.cells.push c' } where
  size := by simp only [Array.size_push, ht.size]
  cells r d d' hd hd' := by
    rw [Array.getElem?_push] at hd hd'
    rw [← ht.size] at hd'
    split at hd
    · rename_i hr
      rw [if_pos hr] at hd'
      cases hd
      cases hd'
      exact hc
    · rename_i hr
      rw [if_neg hr] at hd'
      exact ht.cells r d d' hd hd'
  frames := ht.frames
  data := ht.data

theorem set (ht : h.Twin l h') (r : Ref) {c c' : Cell} (hc : c.Twin l h.frames c') :
    ({ h with cells := h.cells.setIfInBounds r c }).Twin l
      { h' with cells := h'.cells.setIfInBounds r c' } where
  size := by simp only [Array.size_setIfInBounds, ht.size]
  cells i d d' hd hd' := by
    rw [Array.getElem?_setIfInBounds] at hd hd'
    rw [← ht.size] at hd'
    by_cases hi : r = i
    · rw [if_pos hi] at hd hd'
      by_cases hr : r < h.cells.size
      · rw [if_pos hr] at hd hd'
        cases hd
        cases hd'
        exact hc
      · rw [if_neg hr] at hd
        cases hd
    · rw [if_neg hi] at hd hd'
      exact ht.cells i d d' hd hd'
  frames := ht.frames
  data := ht.data

theorem reframe (ht : h.Twin l h') {frames frames' : Array Frame} (hg : Grows h.frames frames)
    (hf : l.tally.frames frames frames') :
    ({ h with frames }).Twin l { h' with frames := frames' } where
  size := ht.size
  cells r c c' hc hc' := (ht.cells r c c' hc hc').mono hg
  frames := hf
  data := ht.data

theorem pushData (ht : h.Twin l h') (d : RenderData) :
    ({ h with data := h.data.push d }).Twin l { h' with data := h'.data.push d } where
  size := ht.size
  cells := ht.cells
  frames := ht.frames
  data := l.push d ht.data

end Heap.Twin

def Cell.scope? : Cell → Option Scope
  | .function c => some c.scope
  | .iterator (.comprehension c) => some c.scope
  | _ => none

def Cell.data? : Cell → Option Ref
  | .function c => some c.scope.data
  | .iterator (.comprehension c) => some c.scope.data
  | _ => none

theorem Cell.data?_of_scope? {c : Cell} {s : Scope} (h : c.scope? = some s) :
    c.data? = some s.data := by
  cases c with
  | function c =>
    cases h
    rfl
  | iterator cursor =>
    cases cursor with
    | comprehension c =>
      cases h
      rfl
    | _ => cases h
  | _ => cases h

theorem Comprehension.scopeAfter_eq (c : Comprehension) (n : Nat) :
    (c.scopeAfter n).data = c.scope.data ∧ (c.scopeAfter n).frame = c.scope.frame ∧
      (c.scopeAfter n).loops = c.scope.loops := by
  unfold scopeAfter
  dsimp only
  split
  · exact ⟨rfl, rfl, rfl⟩
  · exact ⟨rfl, rfl, rfl⟩

/-- A cell is its own twin if its code may run, whatever it comes to. -/
theorem Cell.Twin.of_allowed {frames : Array Frame} {c : Cell}
    (hmodes : ∀ mode, l.modes mode mode)
    (hframed : l.framed → ∀ s, c.scope? = some s → s.frame < frames.size)
    (hcode : ∀ s, c.scope? = some s →
      ∀ context e, l.allows false s.data s.frame s.loops context e) : c.Twin l frames c := by
  cases c with
  | function c =>
    have hfits : c.Fits l false frames :=
      ⟨fun _ _ _ => hcode _ rfl _ _, nofun, fun hf => hframed hf _ rfl⟩
    exact .function hfits (.told (hmodes _) (l.tally.refl _ _))
  | iterator cursor =>
    cases cursor with
    | comprehension c =>
      have hfits : c.Fits l false frames (c.iterators.length - 1) := by
        refine ⟨nofun, fun i e _ context f _ => ?_, nofun, nofun, fun hf => hframed hf _ rfl⟩
        obtain ⟨hdata, hframe, hloops⟩ := c.scopeAfter_eq i
        rw [hdata, hframe, hloops]
        exact hcode _ rfl _ _
      exact .generator (.told hfits (.told (hmodes _) (l.tally.refl _ _)))
    | _ => exact .inert trivial
  | _ => exact .inert trivial

end Heaps

theorem Joined.after {l : Leeway} {α β : Type} {V : Array Frame → α → β → Prop}
    {frames frames' : Array Frame} {r : Outcome α} {r' : Outcome β}
    (h : Joined l V frames' r r') (hg : Grows frames frames') : Joined l V frames r r' := by
  cases h with
  | ok ht hg' hv => exact .ok ht (hg.trans hg') hv
  | error ht hg' hh => exact .error ht (hg.trans hg') hh
  | lost hl => exact .lost hl

namespace Twin

variable {l : Leeway} {α β γ δ : Type} {V : Array Frame → α → β → Prop}
  {W : Array Frame → γ → δ → Prop} {frames : Array Frame} {x : Eval α} {y : Eval β}

theorem imp {V' : Array Frame → α → β → Prop} (h : Twin l V frames x y)
    (hv : ∀ frames' a b, Grows frames frames' → V frames' a b → V' frames' a b) :
    Twin l V' frames x y := by
  intro n h₁ h₂ ht hg
  have hr := h n h₁ h₂ ht hg
  generalize x.run n h₁ = r, y.run n h₂ = r' at hr ⊢
  cases hr with
  | ok ht' hg' h => exact .ok ht' hg' (hv _ _ _ (hg.trans hg') h)
  | error ht' hg' hh => exact .error ht' hg' hh
  | lost hl => exact .lost hl

theorem deliver {a : α} {b : β} (hv : ∀ frames', Grows frames frames' → V frames' a b) :
    Twin l V frames (pure a) (pure b) :=
  fun _ h _ ht hg => .ok ht (.refl h.frames) (hv h.frames hg)

theorem pure (a : α) : Twin l Same frames (Pure.pure a) (Pure.pure a) := deliver fun _ _ => rfl

theorem halted {halt halt' : Halt} (hh : halt.Twin l halt') :
    Twin l V frames (MonadExcept.throw halt : Eval α) (MonadExcept.throw halt') :=
  fun _ h _ ht _ => .error ht (.refl h.frames) hh

theorem throw (halt : Halt) :
    Twin l V frames (MonadExcept.throw halt : Eval α) (MonadExcept.throw halt) :=
  halted (.same halt)

theorem fault (f : Fault) : Twin l V frames (Eval.fault f) (Eval.fault f) := throw (.fault f)

theorem bindWith {f : α → Eval γ} {g : β → Eval δ} (hx : Twin l V frames x y)
    (hf : ∀ frames' a b, Grows frames frames' → V frames' a b → Twin l W frames' (f a) (g b)) :
    Twin l W frames (x >>= f) (y >>= g) := by
  intro n h h' ht hg
  have hr := hx n h h' ht hg
  change Joined l W h.frames (Eval.runOn (x.run n h) fun a => (f a).run n)
    (Eval.runOn (y.run n h') fun b => (g b).run n)
  generalize x.run n h = r, y.run n h' = r' at hr ⊢
  cases hr with
  | ok ht₁ hg₁ hv => exact (hf _ _ _ (hg.trans hg₁) hv n _ _ ht₁ (.refl _)).after hg₁
  | error ht₁ hg₁ hh => exact .error ht₁ hg₁ hh
  | lost hl => exact .lost hl

theorem bind {x y : Eval α} {f : α → Eval γ} {g : α → Eval δ} (hx : Twin l Same frames x y)
    (hf : ∀ frames' a, Grows frames frames' → Twin l W frames' (f a) (g a)) :
    Twin l W frames (x >>= f) (y >>= g) := by
  refine bindWith hx fun frames' a b hg hab => ?_
  cases hab
  exact hf frames' a hg

theorem bindSuch {P : Array Frame → α → Prop} {x y : Eval α} {f : α → Eval γ} {g : α → Eval δ}
    (hx : Twin l (Such P) frames x y)
    (hf : ∀ frames' a, Grows frames frames' → P frames' a → Twin l W frames' (f a) (g a)) :
    Twin l W frames (x >>= f) (y >>= g) := by
  refine bindWith hx fun frames' a b hg hab => ?_
  obtain ⟨rfl, ha⟩ := hab
  exact hf frames' a hg ha

theorem such {P : Array Frame → α → Prop} {a : α}
    (h : ∀ frames', Grows frames frames' → P frames' a) :
    Twin l (Such P) frames (Pure.pure a) (Pure.pure a) :=
  deliver fun frames' hg => ⟨rfl, h frames' hg⟩

theorem failed (f : Fault) {k : α → Eval γ} {k' : α → Eval δ} :
    Twin l W frames (Eval.fault f >>= k) (Eval.fault f >>= k') :=
  bindWith (V := fun _ _ _ => False) (fault f) fun _ _ _ _ h => h.elim

theorem get {f : Heap → Eval γ} {g : Heap → Eval δ} (hg : ∀ h h', h.LooksLike h' → g h = g h')
    (hf : ∀ h, Twin l W frames (f h) (g h)) :
    Twin l W frames (MonadState.get >>= f) (MonadState.get >>= g) := by
  intro n h h' ht hgrows
  have hr := hf h n h h' ht hgrows
  rw [hg h h' ht.looksLike] at hr
  exact hr

theorem getTwin {f : Heap → Eval γ} {g : Heap → Eval δ}
    (hf : ∀ h h', h.Twin l h' → Grows frames h.frames → Twin l W h.frames (f h) (g h')) :
    Twin l W frames (MonadState.get >>= f) (MonadState.get >>= g) :=
  fun n h h' ht hg => hf h h' ht hg n h h' ht (.refl h.frames)

theorem ofExcept (e : Except Fault α) :
    Twin l Same frames (Eval.ofExcept e) (Eval.ofExcept e) := by
  cases e with
  | ok a => exact pure a
  | error f => exact fault f

theorem ofExceptSuch (e : Except Fault α) :
    Twin l (Such fun _ a => e = .ok a) frames (Eval.ofExcept e) (Eval.ofExcept e) := by
  cases e with
  | ok a => exact such fun _ _ => rfl
  | error f => exact fault f

theorem nested (cost : Nat) (h : Twin l V frames x y) :
    Twin l V frames (Eval.nested cost x) (Eval.nested cost y) := by
  intro n h₁ h₂ ht hg
  change Joined l V h₁.frames (if n + cost > Eval.deepestCall then _ else _)
    (if n + cost > Eval.deepestCall then _ else _)
  split
  · exact .error ht (.refl _) (.same _)
  · exact h (n + cost) h₁ h₂ ht hg

theorem tryCatch {f : Halt → Eval α} {g : Halt → Eval β} (hx : Twin l V frames x y)
    (hf : ∀ halt halt', halt.Twin l halt' → Twin l V frames (f halt) (g halt'))
    (hlost : ∀ n h halt, l.lost h.data halt →
      ∃ halt' h', (f halt).run n h = .error halt' h' ∧ l.lost h'.data halt') :
    Twin l V frames (MonadExcept.tryCatch x f) (MonadExcept.tryCatch y g) := by
  intro n h h' ht hg
  have hr := hx n h h' ht hg
  change Joined l V h.frames (Eval.handled (x.run n h) fun halt => (f halt).run n)
    (Eval.handled (y.run n h') fun halt => (g halt).run n)
  generalize x.run n h = r, y.run n h' = r' at hr ⊢
  cases hr with
  | ok ht₁ hg₁ hv => exact .ok ht₁ hg₁ hv
  | @error halt halt' h₁ h₁' ht₁ hg₁ hh =>
    have hiff : halt = .fault .tooRecursive ↔ halt' = .fault .tooRecursive := by
      cases hh with
      | same => exact Iff.rfl
      | offered => exact iff_of_false nofun nofun
    unfold Eval.handled
    dsimp only
    by_cases hdeep : halt = .fault .tooRecursive
    · rw [if_pos hdeep, if_pos (hiff.mp hdeep)]
      exact .error ht₁ hg₁ hh
    · rw [if_neg hdeep, if_neg fun h => hdeep (hiff.mpr h)]
      exact (hf halt halt' hh n _ _ ht₁ (hg.trans hg₁)).after hg₁
  | @lost halt h₁ r hl =>
    unfold Eval.handled
    dsimp only
    by_cases hdeep : halt = .fault .tooRecursive
    · rw [if_pos hdeep]
      exact .lost hl
    · rw [if_neg hdeep]
      obtain ⟨halt', h₂, hrun, hl'⟩ := hlost n h₁ halt hl
      rw [hrun]
      exact .lost hl'

theorem allocate {c c' : Cell}
    (hc : ∀ frames', Grows frames frames' → c.Twin l frames' c') :
    Twin l Same frames (Eval.allocate c) (Eval.allocate c') :=
  fun _ h _ ht hg => .ok (ht.push (hc h.frames hg)) (.refl h.frames) ht.size

theorem write (r : Ref) {c c' : Cell}
    (hc : ∀ frames', Grows frames frames' → c.Twin l frames' c') :
    Twin l Same frames (Eval.write r c) (Eval.write r c') :=
  fun _ h _ ht hg => .ok (ht.set r (hc h.frames hg)) (.refl h.frames) rfl

theorem newData (d : RenderData) :
    Twin l (Such fun _ r => ∃ before before', l.data before before' ∧ r = before.size) frames
      (Eval.newData d) (Eval.newData d) :=
  fun _ h _ ht _ => .ok (ht.pushData d) (.refl h.frames)
    ⟨l.size_eq ht.data, h.data, _, ht.data, rfl⟩

theorem frame {r : Ref} {k k' : Frame → Eval α}
    (hk : ∀ b b', (∀ x, l.tally.shared r x → b'.get? x = b.get? x) →
      Twin l Same frames (k b) (k' b')) :
    Twin l Same frames (Eval.frame r >>= k) (Eval.frame r >>= k') := by
  intro n h h' ht hg
  exact hk _ _ (fun x hx => l.tally.agree ht.frames hx) n h h' ht hg

theorem newFrame (b : Frame) :
    Twin l (Such fun frames' r => (r < frames'.size ∧ ¬ l.tally.held r) ∧
      ∀ x, (b.get? x).isSome = true → Assigned frames' r x) frames
      (Eval.newFrame b) (Eval.newFrame b) := by
  intro n h h' ht hg
  have hgrows := grows_push h.frames b
  have hrun : (Eval.newFrame b).run n h' =
      .ok h.frames.size { h' with frames := h'.frames.push b } := by
    rw [← l.tally.size_eq ht.frames]
    rfl
  rw [hrun]
  refine .ok (ht.reframe hgrows (l.tally.push b ht.frames)) hgrows ⟨rfl, ⟨?_, ?_⟩, fun x hx => ?_⟩
  · rw [Array.size_push]
    exact Nat.lt_succ_self _
  · exact l.tally.made ht.frames (Nat.le_refl _)
  · exact (assigned_push _ _ _ _).mpr (.inl ⟨rfl, hx⟩)

theorem bindVariable (r : Ref) (x : Variable) (v : Value) :
    Twin l (Such fun frames' _ => r < frames.size → Assigned frames' r x) frames
      (Eval.bind r x v) (Eval.bind r x v) := by
  intro n h h' ht hg
  have hgrows := grows_bind h.frames r x v
  refine .ok (ht.reframe hgrows (l.tally.bind r x v ht.frames)) hgrows ⟨rfl, fun hr => ?_⟩
  exact (assigned_bind _ _ _ _ _ _).mpr (.inl ⟨rfl, rfl, Nat.lt_of_lt_of_le hr hg.size⟩)

section Lists

variable {ε : Type}

theorem mapM {f g : ε → Eval α} (es : List ε)
    (h : ∀ frames', Grows frames frames' → ∀ e ∈ es, Twin l Same frames' (f e) (g e)) :
    Twin l Same frames (es.mapM f) (es.mapM g) := by
  unfold List.mapM
  generalize [] = done
  induction es generalizing frames done with
  | nil => exact pure done.reverse
  | cons e es ih =>
    refine bind (h frames (.refl _) e List.mem_cons_self) fun frames' a hg => ?_
    exact ih (fun frames'' hg' e' he' =>
      h frames'' (hg.trans hg') e' (List.mem_cons_of_mem _ he')) (a :: done)

theorem filterMapM {f g : ε → Eval (Option α)} (es : List ε)
    (h : ∀ frames', Grows frames frames' → ∀ e ∈ es, Twin l Same frames' (f e) (g e)) :
    Twin l Same frames (es.filterMapM f) (es.filterMapM g) := by
  unfold List.filterMapM
  generalize [] = done
  induction es generalizing frames done with
  | nil => exact pure done.reverse
  | cons e es ih =>
    refine bind (h frames (.refl _) e List.mem_cons_self) fun frames' a hg => ?_
    have hrest (done : List α) := ih (fun frames'' hg' e' he' =>
      h frames'' (hg.trans hg') e' (List.mem_cons_of_mem _ he')) done
    cases a with
    | none => exact hrest done
    | some a => exact hrest (a :: done)

theorem findM? {f g : ε → Eval Bool} (es : List ε)
    (h : ∀ frames', Grows frames frames' → ∀ e ∈ es, Twin l Same frames' (f e) (g e)) :
    Twin l Same frames (es.findM? f) (es.findM? g) := by
  induction es generalizing frames with
  | nil => exact pure none
  | cons e es ih =>
    refine bind (h frames (.refl _) e List.mem_cons_self) fun frames' a hg => ?_
    cases a with
    | true => exact pure (some e)
    | false =>
      exact ih fun frames'' hg' e' he' =>
        h frames'' (hg.trans hg') e' (List.mem_cons_of_mem _ he')

end Lists

end Twin

end Stencil
