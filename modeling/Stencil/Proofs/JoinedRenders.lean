import Stencil.Proofs.ExactRuns
import Stencil.Proofs.JoinedPages
import Stencil.Proofs.MarkedLines
import Stencil.Proofs.Sessions

/-!
# Renders of joined pages

A body is rendered in a frame of its own and with data that nothing changes. What else a heap has
does not matter to it, nor which variables its frame has already and at which positions its loops
are. So the nodes of a page render behind those of another page as they do alone.
-/

namespace Stencil

open Render

open Text (Position)

/-- Nothing of the data is in a heap. -/
def RenderData.IsPlain (d : RenderData) : Prop := ∀ ρ : Renaming, ρ.renderData d = d

def Heap.around (d : RenderData) : Heap := ⟨#[], #[[]], #[d]⟩

namespace Renaming

/-- What is first has a place of its own, and what comes behind it is moved. -/
def firstAt {α : Type} (x : α) (rest : Nat → α) : Nat → α
  | 0 => x
  | q + 1 => rest q

theorem firstAt_one_add {α : Type} (x : α) (rest : Nat → α) (i : Nat) :
    firstAt x rest (1 + i) = rest i := by
  rw [Nat.add_comm]
  rfl

/-- A frame that is there already is not one of those that are made. -/
theorem firstAt_injective {f size : Nat} (hf : f < size) :
    Function.Injective (firstAt f (size + ·)) := by
  intro q q' heq
  cases q with
  | zero =>
    cases q' with
    | zero => rfl
    | succ q' => exact absurd heq (Nat.ne_of_lt (Nat.lt_add_right q' hf))
  | succ q =>
    cases q' with
    | zero => exact absurd heq.symm (Nat.ne_of_lt (Nat.lt_add_right q hf))
    | succ q' => exact congrArg Nat.succ (Nat.add_left_cancel heq)

theorem firstAt_place_injective {m : Position → Position} (hm : Function.Injective m) (q : Nat) :
    Function.Injective (firstAt m (fun _ => id) q) := by
  cases q with
  | zero => exact hm
  | succ q => exact Function.injective_id

theorem firstAt_place_exact {m : Position → Position} (hm : m = id) (q : Nat) :
    firstAt m (fun _ => id) q = id := by
  cases q with
  | zero => exact hm
  | succ q => rfl

/-- Where a heap has what a heap with one frame and some data has: the frame is at `f` and the data
are at `r`. In the frame, loops are known by other positions. -/
def within (h : Heap) (r f : Ref) (hf : f < h.frames.size) (m : Position → Position)
    (hm : Function.Injective m) (exact : Prop) (hexact : exact → m = id) : Renaming where
  cell q := h.cells.size + q
  frame := firstAt f (h.frames.size + ·)
  data := firstAt r (h.data.size + ·)
  place := firstAt m fun _ => id
  exact := exact
  cell_lt := (behind h).cell_lt
  frame_injective := firstAt_injective hf
  place_injective := firstAt_place_injective hm
  place_exact h := firstAt_place_exact (hexact h)
  spare_apart := (behind h).spare_apart

variable {h : Heap} {r f : Ref} {d : RenderData} {hf : f < h.frames.size} {m : Position → Position}
  {hm : Function.Injective m} {exact : Prop} {hexact : exact → m = id}

theorem within_carries (hd : d.IsPlain) (hr : h.data[r]? = some d)
    (hempty : exact → h.frames.getD f [] = []) :
    (within h r f hf m hm exact hexact).Carries (.around d) h where
  cells := aligned_behind _ h.cells
  data := {
    held := by
      rintro (_ | q)
      · change h.data[r]? = some (Renaming.renderData _ d)
        rw [hd, hr]
      · exact Array.getElem?_eq_none (Nat.le_add_right _ _)
    next := firstAt_one_add _ _ }
  assigned q x v hx := by
    rcases q with _ | q <;> cases hx
  unassigned hexact q x _ := by
    rcases q with _ | q
    · change (h.frames.getD f []).get? _ = none
      rw [hempty hexact]
      rfl
    · have hnone : h.frames[h.frames.size + q]? = none :=
        Array.getElem?_eq_none (Nat.le_add_right _ _)
      change (h.frames.getD (h.frames.size + q) []).get? _ = none
      rw [Array.getD_eq_getD_getElem?, hnone]
      rfl
  framed q hq := by
    obtain rfl : q = 0 := Nat.lt_one_iff.mp hq
    exact hf
  nextFrame := firstAt_one_add _ _
  nextPlace := firstAt_one_add _ _
  spared _ _ := nofun

end Renaming

namespace Render

variable {env : Environment} {n : Nat}

/-- What surrounds the body of a page that is rendered with the data at `r`. -/
def pageReach (env : Environment) (n : Nat) (r : Ref) : Reach :=
  around env Evaluator.standard (env.host.calls n) (part env Evaluator.standard n) r []

def pageScope (lenient : Bool) (r f : Ref) : Scope := ⟨r, lenient, f, [], [], "render"⟩

theorem pageReach_returns (env : Environment) (n : Nat) (r : Ref) : (pageReach env n r).Returns :=
  reach_returns n (⟨.blank, .whole ⟨⟨"", none, none⟩, .page [], false⟩, r, [], rfl⟩ : Entry)

theorem nodes_append (reach : Reach) (scope : Scope) (ns ns' : List Node) (out : Output) :
    nodes reach scope out (ns ++ ns') =
      nodes reach scope out ns >>= fun out => nodes reach scope out ns' := by
  induction ns generalizing out with
  | nil => rfl
  | cons n ns ih =>
    rw [List.cons_append, nodes, nodes, bind_assoc]
    exact bind_congr fun more => ih (out ++ more)

theorem nodes_behind (reach : Reach) (scope : Scope) (ns : List Node) (before out : Output) :
    nodes reach scope (before ++ out) ns = (before ++ ·) <$> nodes reach scope out ns := by
  induction ns generalizing out with
  | nil => rfl
  | cons n ns ih =>
    rw [nodes, nodes, map_bind]
    refine bind_congr fun more => ?_
    rw [Array.append_assoc]
    exact ih (out ++ more)

end Render

namespace Render

variable {d : RenderData} {r f : Ref} {w w' : World} {b b' : Boundary} {lenient : Bool}
  {ns : List Node} {out : Output}

def worldAround (d : RenderData) (b : Boundary) : World := ⟨.around d, some b, #[]⟩

structure HasPlace (d : RenderData) (r f : Ref) (w : World) : Prop where
  data : w.heap.data[r]? = some d
  frame : f < w.heap.frames.size

theorem pageNodes_follow {h : Heap} (r : Ref) (hf : f < h.frames.size) {m : Position → Position}
    (hm : Function.Injective m) {exact : Prop} (hexact : exact → m = id) (n : Nat) (lenient : Bool)
    (henv : env.IsPlain) (ns : List Node) :
    (Renaming.within h r f hf m hm exact hexact).Follows id #[[]]
      (nodes (pageReach env n 0) (pageScope lenient 0 0) #[] ns)
      (nodes (pageReach env n r) (pageScope lenient r f) #[] (Node.movedAll m ns)) := by
  have hreach := Renaming.around_reaches (Renaming.part_follows
    (Renaming.within h r f hf m hm exact hexact).standard_evaluates env n) env
    (Renaming.within h r f hf m hm exact hexact).standard_evaluates (env.host.calls n) 0 []
  rw [henv.environment] at hreach
  exact Renaming.nodes_follows hreach ns #[] (s := pageScope lenient 0 0) ⟨Nat.zero_lt_one, nofun⟩

/-- A body that renders in a heap of its own renders alike in any other, and leaves its data and its
frame there. -/
theorem pageNodes_anywhere (henv : env.IsPlain) (hd : d.IsPlain) (hlevel : b.Level b')
    {m : Position → Position} (hm : Function.Injective m) {w₁ : World}
    (h : (nodes (pageReach env n 0) (pageScope lenient 0 0) #[] ns).run (worldAround d b) =
      .ok out w₁) (hplace : HasPlace d r f w) {lines : List Nat} (hb : Shows b' lines w) :
    ∃ w', (nodes (pageReach env n r) (pageScope lenient r f) #[] (Node.movedAll m ns)).run w =
      .ok out w' ∧ HasPlace d r f w' ∧ ∃ lines', Shows b' lines' w' := by
  have hfollow := pageNodes_follow r hplace.frame hm False.elim n lenient henv ns
  have hmet := hfollow (worldAround d b) w ⟨Renaming.within_carries hd hplace.data False.elim, ?_⟩
    (.refl _)
  · rw [h] at hmet
    generalize hrun : EStateM.run _ w = o at hmet
    cases hmet with
    | @ok _ _ w' hw hg =>
      have hdata := nodes_keep_data rfl hplace.data hrun
      have hframe := hw.heap.framed 0 (Nat.lt_of_lt_of_le Nat.zero_lt_one hg.size)
      exact ⟨w', rfl, ⟨hdata, hframe⟩, _, nodes_shows (pageReach_returns env n r) _ hb hrun⟩
  · obtain ⟨line, -, hb⟩ := hb
    rw [hb]
    exact .some ⟨False.elim, hlevel.depth, hlevel.limit, hlevel.chain⟩

/-- A body that renders in a heap with an empty frame for it renders alike in a heap of its own. -/
theorem pageNodes_alone (henv : env.IsPlain) (hd : d.IsPlain) (hplace : HasPlace d r f w)
    (hempty : w.heap.frames.getD f [] = []) (hb : w.boundary = some b)
    (h : (nodes (pageReach env n r) (pageScope lenient r f) #[] ns).run w = .ok out w') :
    ∃ w₁, (nodes (pageReach env n 0) (pageScope lenient 0 0) #[] ns).run (worldAround d b) =
      .ok out w₁ := by
  have hfollow := pageNodes_follow r hplace.frame Function.injective_id (fun _ : True => rfl) n
    lenient henv ns
  have hmet := hfollow (worldAround d b) w
    ⟨Renaming.within_carries hd hplace.data fun _ => hempty, ?_⟩ (.refl _)
  · rw [Node.movedAll_id, h] at hmet
    generalize hrun : EStateM.run _ (worldAround d b) = o at hmet
    cases hmet with
    | ok _ _ => exact ⟨_, rfl⟩
    | lost hinexact => exact absurd trivial hinexact
  · rw [hb]
    exact .some (.refl b)

end Render

theorem Output.text_append (out more : Output) : (out ++ more).text = out.text ++ more.text := by
  unfold Output.text
  rw [Array.toList_append, List.map_append, String.join_append]

theorem Action.map_ok {α β : Type} {g : α → β} {x : Action α} {w w' : World} {c : β}
    (h : (g <$> x).run w = .ok c w') : ∃ a, x.run w = .ok a w' ∧ g a = c := by
  rw [map_eq_pure_bind] at h
  obtain ⟨a, w₁, hx, h⟩ := Action.bind_ok h
  cases h
  exact ⟨a, hx, rfl⟩

theorem Action.map_of_ok {α β : Type} (g : α → β) {x : Action α} {w w' : World} {a : α}
    (h : x.run w = .ok a w') : (g <$> x).run w = .ok (g a) w' := by
  rw [map_eq_pure_bind, Action.bind_of_ok h]
  rfl

namespace Render

variable {d : RenderData} {r f : Ref} {w : World} {b b' b'' : Boundary} {lenient : Bool}
  {ns ns' nodes' : List Node} {out out' : Output} {w₁ w₂ : World}

/-- Joined bodies render to what each of them renders to. -/
theorem pageNodes_joined {m : Position → Position} (hm : Function.Injective m)
    (hjoins : Node.Joins m ns ns' nodes') (henv : env.IsPlain) (hd : d.IsPlain)
    (hlevel : b.Level b'') (hlevel' : b'.Level b'')
    (h : (nodes (pageReach env n 0) (pageScope lenient 0 0) #[] ns).run (worldAround d b) =
      .ok out w₁)
    (h' : (nodes (pageReach env n 0) (pageScope lenient 0 0) #[] ns').run (worldAround d b') =
      .ok out' w₂)
    (hplace : HasPlace d r f w) {lines : List Nat} (hb : Shows b'' lines w) : ∃ joined w',
      (nodes (pageReach env n r) (pageScope lenient r f) #[] nodes').run w = .ok joined w' ∧
        joined.text = out.text ++ out'.text := by
  obtain ⟨w₃, hfirst, hplace', lines', hb'⟩ :=
    pageNodes_anywhere henv hd hlevel Function.injective_id h hplace hb
  rw [Node.movedAll_id] at hfirst
  -- what comes behind some output when the second body is rendered there
  have hsecond {ns₁ : List Node} {out₁ : Output} {w₄ : World}
      (h₁ : (nodes (pageReach env n 0) (pageScope lenient 0 0) #[] ns₁).run (worldAround d b') =
        .ok out₁ w₄) (before : Output) : ∃ w', (nodes (pageReach env n r) (pageScope lenient r f)
          before (Node.movedAll m ns₁)).run w₃ = .ok (before ++ out₁) w' := by
    obtain ⟨w', hrun, -⟩ := pageNodes_anywhere henv hd hlevel' hm h₁ hplace' hb'
    have hmap := Action.map_of_ok (before ++ ·) hrun
    rw [← nodes_behind, Array.append_empty] at hmap
    exact ⟨w', hmap⟩
  cases hjoins with
  | apart init q s ns' =>
    obtain ⟨w', hrun⟩ := hsecond h' out
    refine ⟨out ++ out', w', ?_, Output.text_append _ _⟩
    rw [← List.singleton_append, ← List.append_assoc, nodes_append, Action.bind_of_ok hfirst]
    exact hrun
  | merged init q s p s' ns' =>
    rw [nodes_append] at hfirst
    obtain ⟨before, w₄, hinit, hliteral⟩ := Action.bind_ok hfirst
    cases hliteral
    have hrest := h'
    rw [nodes] at hrest
    change (nodes _ _ (#[.literal s'] ++ #[]) ns').run _ = _ at hrest
    rw [nodes_behind] at hrest
    obtain ⟨out₁, hmore, rfl⟩ := Action.map_ok hrest
    obtain ⟨w', hrun⟩ := hsecond hmore (before ++ #[.literal (s ++ s')])
    refine ⟨before ++ #[.literal (s ++ s')] ++ out₁, w', ?_, ?_⟩
    · rw [nodes_append, Action.bind_of_ok hinit]
      exact hrun
    · have hliteral (s : String) : Output.text #[.literal s] = s := by
        simp [Output.text, Piece.text]
      simp only [Output.text_append, hliteral, String.append_assoc]

end Render

end Stencil
