import Stencil.Proofs.Standing

/-!
# Where a render is

Wherever a render is in a body, the scope has the loops of its rounds, innermost first. Each loop
that counts its passes is under way; its parent is the innermost loop around it that has a name, and
that name still means it.
-/

namespace Stencil

open Render

variable {free : Prop} {env : Environment} {h h' : Heap} {f : Ref}

def Heap.through (h : Heap) : Value → Option Ref
  | .iterator .generator q =>
    match h.cursor q with
    | .loop r _ => some r
    | _ => none
  | _ => none

namespace Round

/-- The loop whose passes are counted, if they are. -/
def context (ρ : Round) : Option Ref := ρ.first.through ρ.iterator

def contexts : List Round → List Ref
  | [] => []
  | ρ :: outer => if ρ.scope.counted then ρ.context.toList ++ contexts outer else contexts outer

/-- What a counted loop was when it was made: its list, how long this was, the loop around it. -/
def state (ρ : Round) (r : Ref) : LoopState := ρ.first.loopState r

/-- In a heap a round of a counted loop is under way, inside of other rounds. -/
structure Stands (h : Heap) (f : Ref) (free : Prop) (outer : List Round) (ρ : Round) (r : Ref) :
    Prop where
  context : ρ.context = some r
  runs : h.Runs f ρ.scope r (ρ.state r) free ρ.pass
  parent : (ρ.state r).parent = (contexts outer).head?
  length : (ρ.state r).length = (ρ.first.listItems (ρ.state r).items).size
  item : ∃ k, ρ.pass = k + 1 ∧ (ρ.taken.listItems (ρ.state r).items)[k]? = some ρ.item

inductive AllStand (h : Heap) (f : Ref) (free : Prop) : List Round → Prop
  | nil : AllStand h f free []
  | cons {ρ : Round} {outer : List Round} (houter : AllStand h f free outer)
      (hρ : Node.mention "loop" ρ.body = true → ∃ r, Stands h f free outer ρ r) :
      AllStand h f free (ρ :: outer)

theorem counted_iff {ρ : Round} : ρ.scope.counted = true ↔
    Node.mention "loop" ρ.body = true ∧ "loop" ∉ ρ.target.expr.storedNames := by
  simp [scope, loopScope]

namespace AllStand

theorem of_suffix {rs outer : List Round} (hrs : AllStand h f free rs) (houter : outer <:+ rs) :
    AllStand h f free outer := by
  induction hrs with
  | nil => exact List.suffix_nil.mp houter ▸ .nil
  | @cons ρ rest hrest hρ ih =>
    rcases List.suffix_cons_iff.mp houter with rfl | hsuffix
    · exact .cons hrest hρ
    · exact ih hsuffix

theorem after {rs : List Round} (hrs : AllStand h f free rs)
    {may : Text.Position → String → Prop} (hl : (Licence.within h free f may).Leads h h')
    (hf : f < h.frames.size) (hmay : ∀ ρ ∈ rs, ¬ may ρ.position "loop") :
    AllStand h' f free rs := by
  induction hrs with
  | nil => exact .nil
  | @cons ρ outer _ hρ ih =>
    refine .cons (ih fun ρ' hρ' => hmay ρ' (List.mem_cons_of_mem _ hρ')) fun hcounts => ?_
    obtain ⟨r, hstands⟩ := hρ hcounts
    have hspares : ρ.scope.counted = true → ¬ may ρ.scope.position "loop" := fun _ =>
      hmay ρ List.mem_cons_self
    exact ⟨r, { hstands with runs := hstands.runs.after hl hf hspares }⟩

/-- The loop around a body, as names tell it, is the innermost one that has a name. -/
theorem parentOf_eq {rs : List Round} (hrs : AllStand h f free rs) {scope : Scope}
    (hframe : scope.frame = f) (hloops : scope.loops = rs.map Round.scope) :
    h.parentOf scope = (contexts rs).head? := by
  unfold Heap.parentOf
  rw [hloops, hframe]
  clear hloops
  induction hrs with
  | nil => rfl
  | @cons ρ outer _ hρ ih =>
    rw [List.map_cons, List.find?_cons]
    unfold contexts
    by_cases hcounted : ρ.scope.counted = true
    · obtain ⟨r, hstands⟩ := hρ (counted_iff.mp hcounted).1
      have hnamed : (h.frames.getD f []).get? (.ofLoop ρ.scope.position "loop") =
          some (.loop r) := hstands.runs.named hcounted
      rw [if_pos hcounted, hstands.context, hcounted]
      dsimp only [Option.bind_some]
      rw [hnamed]
      rfl
    · rw [if_neg hcounted]
      simp only [Bool.not_eq_true] at hcounted
      rw [hcounted]
      exact ih

end AllStand

end Round

namespace Render

/-- What holds wherever the render of a body is. What is to be rendered next is part of the bodies
of all loops around it. -/
structure Placed (free : Prop) (env : Environment) (scope₀ : Scope) (rs : List Round)
    (scope : Scope) (ns : List Node) (w : World) : Prop where
  sound : w.heap.IsSound
  env : Suits w.heap env
  frame : scope₀.frame < w.heap.frames.size
  scope : scope = { scope₀ with loops := rs.map Round.scope }
  apart : (rs.map (·.position) ++ Node.loopPlacesOf ns).Nodup
  within : ∀ ρ ∈ rs, Node.expressionsOf ns ⊆ Node.expressionsOf ρ.body
  nested : rs.Pairwise fun inner outer =>
    Node.expressionsOf inner.body ⊆ Node.expressionsOf outer.body
  rounds : Round.AllStand w.heap scope₀.frame free rs

namespace Placed

variable {scope₀ scope : Scope} {rs : List Round} {ns ns' : List Node} {w w₁ w' : World}

theorem frame_eq (h : Placed free env scope₀ rs scope ns w) : scope.frame = scope₀.frame := by
  rw [h.scope]

theorem marked (h : Placed free env scope₀ rs scope ns w) (line : Nat) :
    Placed free env scope₀ rs scope ns (w.marked line) := { h with }

/-- What binds variables of the loops that come next leaves the rounds under way. -/
theorem rounds_after (h : Placed free env scope₀ rs scope ns w)
    {may : Text.Position → String → Prop}
    (hl : (Licence.within w.heap free scope.frame may).Leads w.heap h')
    (hmay : ∀ p name, may p name → p ∈ Node.loopPlacesOf ns) :
    Round.AllStand h' scope₀.frame free rs := by
  rw [h.frame_eq] at hl
  refine h.rounds.after hl h.frame fun ρ hρ hbinds => ?_
  exact List.disjoint_of_nodup_append h.apart (List.mem_map_of_mem hρ) (hmay _ _ hbinds)

theorem moved (h : Placed free env scope₀ rs scope ns w) {may : Text.Position → String → Prop}
    (hl : (Licence.within w.heap free scope.frame may).Leads w.heap w'.heap)
    (hs : w'.heap.IsSound) (hmay : ∀ p name, may p name → p ∈ Node.loopPlacesOf ns)
    (hplaces : (Node.loopPlacesOf ns').Sublist (Node.loopPlacesOf ns))
    (hcodes : Node.expressionsOf ns' ⊆ Node.expressionsOf ns) :
    Placed free env scope₀ rs scope ns' w' where
  sound := hs
  env := h.env.after hl
  frame := Nat.lt_of_lt_of_le h.frame hl.frames_le
  scope := h.scope
  apart := h.apart.sublist (hplaces.append_left _)
  within ρ hρ := List.Subset.trans hcodes (h.within ρ hρ)
  nested := h.nested
  rounds := h.rounds_after hl hmay

section Steps

variable {reach : Reach} (hplaced : Placed free env scope₀ rs scope ns w)

include hplaced

theorem tested (hr : reach.IsSafe free env) {t : Code} {line : Nat} {holds : Bool}
    (hrun : (test reach scope t).run (w.marked line) = .ok holds w')
    (hplaces : (Node.loopPlacesOf ns').Sublist (Node.loopPlacesOf ns))
    (hcodes : Node.expressionsOf ns' ⊆ Node.expressionsOf ns) :
    Placed free env scope₀ rs scope ns' w' := by
  let l := Licence.within w.heap free scope.frame fun _ _ => False
  have hl : l.Allows free env := Licence.within_allows hplaced.env
  have hsafe : Action.IsSafe l (w.marked line) (test reach scope t) := test_safe hr hl t
  obtain ⟨hled, hs, -⟩ := hsafe.of_ok hplaced.sound (.refl _ _) hrun
  exact hplaced.moved hled hs (fun _ _ => False.elim) hplaces hcodes

theorem rendered {places : List Text.Position} {x : Action Output} {out : Output}
    (hsafe : ∀ {l : Licence}, l.Allows free env → l.BindsIn scope.frame places →
      Action.IsSafe l w x) (hrun : x.run w = .ok out w')
    (hbound : places.Sublist (Node.loopPlacesOf ns))
    (hplaces : (Node.loopPlacesOf ns').Sublist (Node.loopPlacesOf ns))
    (hcodes : Node.expressionsOf ns' ⊆ Node.expressionsOf ns) :
    Placed free env scope₀ rs scope ns' w' := by
  let l := Licence.within w.heap free scope.frame fun q _ => q ∈ places
  have hl : l.Allows free env := Licence.within_allows hplaced.env
  have hbinds : l.BindsIn scope.frame places := fun q hq name => Licence.within_binds hq
  obtain ⟨hled, hs, -⟩ := (hsafe hl hbinds).of_ok hplaced.sound (.refl _ _) hrun
  exact hplaced.moved hled hs (fun q _ hq => hbound.subset hq) hplaces hcodes

end Steps

section Entering

variable {reach : Reach} (hr : reach.IsSafe free env) {p : Text.Position} {keyword : LoopKeyword}
  {target source : Code} {body : List Node} {it v : Value} {k : Nat} {w₂ w₃ w₄ : World}
  (hplaced : Placed free env scope₀ rs scope (.loop p keyword target source body :: ns) w)
  (hs : (started reach scope p target source body).run (w.marked p.line) = .ok it w₁)
  (hp : Passes reach scope p target body it k w₁ w₂)

/-- What a loop may do: its own variables and those of the loops inside are its to bind. -/
abbrev loopLicence (h : Heap) (free : Prop) (f : Ref) (p : Text.Position) (body : List Node) :
    Licence :=
  Licence.within h free f fun q _ => q ∈ p :: Node.loopPlacesOf body

include hplaced in
theorem loop_allows : (loopLicence w.heap free scope.frame p body).Allows free env :=
  Licence.within_allows hplaced.env

theorem loop_binds (h : Heap) : (loopLicence h free scope.frame p body).BindsIn scope.frame
    (p :: Node.loopPlacesOf body) := fun _ hq _ => Licence.within_binds hq

theorem loop_binds_own (h : Heap) :
    (loopLicence h free scope.frame p body).BindsIn scope.frame [p] := fun q hq name =>
  loop_binds h q (List.mem_singleton.mp hq ▸ List.mem_cons_self) name

include hplaced in
theorem rounds_around (hled : (loopLicence w.heap free scope.frame p body).Leads w.heap h') :
    Round.AllStand h' scope₀.frame free rs :=
  hplaced.rounds_after hled fun _ _ hq => List.subset_append_left _ _ hq

include hr hplaced hs hp

/-- A loop has made some passes. If it counts them it is under way, inside of the loops that have a
name. -/
theorem passed : (loopLicence w.heap free scope.frame p body).Leads w.heap w₂.heap ∧
    w₂.heap.IsSound ∧
    Action.IsSafe (loopLicence w.heap free scope.frame p body) w₂
      (reach.evaluate (reach.ev.next it)) ∧
    (Node.mention "loop" body = true → ∃ r, it = .iterator .generator (r + 1) ∧
      w.heap.cells.size ≤ r ∧ w₁.heap.through it = some r ∧
      (w₁.heap.loopState r).parent = (Round.contexts rs).head? ∧
      (w₁.heap.loopState r).length = (w₁.heap.listItems (w₁.heap.loopState r).items).size ∧
      w₂.heap.Runs scope.frame (loopScope p target body) r (w₁.heap.loopState r) free k) := by
  have hl := loop_allows hplaced
  have hbinds : (loopLicence w.heap free scope.frame p body).BindsIn scope.frame
      (p :: Node.loopPlacesOf body) := loop_binds w.heap
  cases hcounts : Node.mention "loop" body with
  | false =>
    obtain ⟨hl₁, hs₁, hit⟩ :=
      started_plain (w := w.marked p.line) hr hl hplaced.sound (.refl _ _) hcounts hs
    obtain ⟨hl₂, hs₂⟩ := passes_plain hr hl hbinds hs₁ hl₁ hp hit
    exact ⟨hl₁.trans hl₂, hs₂, .evaluateUnder _ ((hr.ev hl).next (hit.after hl₂)), nofun⟩
  | true =>
    have hf : scope.frame < w.heap.frames.size := by
      rw [hplaced.frame_eq]
      exact hplaced.frame
    have hnot : p ∉ Node.loopPlacesOf body := by
      have hnodup := (List.nodup_append.mp hplaced.apart).2.1
      have hloop := (List.nodup_append.mp hnodup).1
      exact (List.nodup_cons.mp hloop).1
    obtain ⟨hl₁, hs₁, r, s, h₁, rfl, hnew, hloop, hruns, hlength, hled₁, hparent⟩ :=
      started_counts (w := w.marked p.line) hr hl (hbinds p List.mem_cons_self) hplaced.sound
        (.refl _ _) hf hcounts hs
    have hf₁ := Nat.lt_of_lt_of_le hf hl₁.frames_le
    obtain ⟨hl₂, hs₂, hruns₂⟩ := passes_counts hr hl hbinds hs₁ hl₁ hf₁ hp hnew rfl hnot hruns
    obtain ⟨i, hloop₂, -⟩ := hruns₂.loop
    obtain rfl : w₁.heap.loopState r = s := Heap.loopState_of_cell hloop
    refine ⟨hl₁.trans hl₂, hs₂, nextOwn_safe hr hl hloop₂ hnew, fun _ =>
      ⟨r, rfl, hnew, ?_, ?_, hlength, hruns₂⟩⟩
    · unfold Heap.through
      dsimp only
      rw [Heap.cursor_of_cell hruns.iterator]
    · rw [hparent, (rounds_around hplaced hled₁).parentOf_eq hplaced.frame_eq]
      rw [hplaced.scope]

variable (hi : (reach.evaluate (reach.ev.next it)).run w₂ = .ok (some v) w₃)

include hi

theorem took : (loopLicence w.heap free scope.frame p body).Leads w.heap w₃.heap ∧
    w₃.heap.IsSound ∧ Suits w₃.heap v := by
  obtain ⟨hl₂, hs₂, hnext, -⟩ := passed hr hplaced hs hp
  obtain ⟨hl₃, hs₃, hv⟩ := hnext.of_ok hs₂ hl₂ hi
  exact ⟨hl₂.trans hl₃, hs₃, suits_some.mp hv⟩

variable (ha : (assigned reach scope p target body v).run w₃ = .ok () w₄)

include ha

theorem assigned_led : (loopLicence w.heap free scope.frame p body).Leads w.heap w₄.heap ∧
    w₄.heap.IsSound := by
  obtain ⟨hl₃, hs₃, hv⟩ := took hr hplaced hs hp hi
  have hsafe : Action.IsSafe _ w₃ (assigned reach scope p target body v) :=
    assigned_safe hr (loop_allows hplaced) (loop_binds_own w.heap) hv
  obtain ⟨hl₄, hs₄, -⟩ := hsafe.of_ok hs₃ hl₃ ha
  exact ⟨hl₃.trans hl₄, hs₄⟩

/-- In a round a loop that counts its passes is under way. -/
theorem round_stands (hcounts : Node.mention "loop" body = true) :
    ∃ r, Round.Stands w₄.heap scope₀.frame free rs
      ⟨p, target, body, it, w₁.heap, k + 1, w₃.heap, v⟩ r := by
  obtain ⟨hl₂, hs₂, -, hruns⟩ := passed hr hplaced hs hp
  obtain ⟨hl₃, hs₃, hv⟩ := took hr hplaced hs hp hi
  obtain ⟨r, rfl, hnew, hcontext, hparent, hlength, hruns₂⟩ := hruns hcounts
  have hl := loop_allows hplaced
  have hf₃ : scope.frame < w₃.heap.frames.size := by
    rw [hplaced.frame_eq]
    exact Nat.lt_of_lt_of_le hplaced.frame hl₃.frames_le
  have hspares : (loopScope p target body).counted = true →
      ¬ ((loopScope p target body).position = p ∧ "loop" ∈ target.expr.storedNames) := by
    rintro hcounted ⟨-, hmem⟩
    simp [loopScope] at hcounted
    exact hcounted.2 hmem
  obtain ⟨-, -, -, hruns₃, hitem⟩ := next_runs hr hl hs₂ hl₂ hnew hruns₂ hi
  have hruns₄ := assigned_runs hr hs₃ (hl.env.after hl₃) hf₃ hv hspares hruns₃ ha
  rw [hplaced.frame_eq] at hruns₄
  exact ⟨r, hcontext, hruns₄, hparent, hlength, k, rfl, hitem⟩

/-- Into a round of a loop: those around it are still under way. -/
theorem entered : Placed free env scope₀
    (⟨p, target, body, it, w₁.heap, k + 1, w₃.heap, v⟩ :: rs) (innerScope scope p target body)
    body w₄ := by
  obtain ⟨hled, hs₄⟩ := assigned_led hr hplaced hs hp hi ha
  have hcodes : Node.expressionsOf body ⊆
      Node.expressionsOf (.loop p keyword target source body :: ns) := fun c hc =>
    List.mem_append_left _ (List.mem_cons_of_mem _ (List.mem_cons_of_mem _ hc))
  have hwithin (ρ : Round) (hρ : ρ ∈ rs) : Node.expressionsOf body ⊆ Node.expressionsOf ρ.body :=
    List.Subset.trans hcodes (hplaced.within ρ hρ)
  refine ⟨hs₄, hplaced.env.after hled, Nat.lt_of_lt_of_le hplaced.frame hled.frames_le, ?_, ?_, ?_,
    .cons hwithin hplaced.nested,
    .cons (rounds_around hplaced hled) (round_stands hr hplaced hs hp hi ha)⟩
  · unfold innerScope
    rw [hplaced.scope]
    rfl
  · have hsub : (p :: Node.loopPlacesOf body).Sublist
        (Node.loopPlacesOf (.loop p keyword target source body :: ns)) :=
      List.sublist_append_left _ _
    have hapart := hplaced.apart.sublist (hsub.append_left (rs.map (·.position)))
    exact List.perm_middle.nodup_iff.mp hapart
  · intro ρ hρ
    rcases List.mem_cons.mp hρ with rfl | hρ
    · exact List.Subset.refl _
    · exact hwithin ρ hρ

end Entering

end Placed

variable {reach : Reach} {scope₀ scope : Scope} {ns₀ ns : List Node} {w₀ w : World}
  {rs : List Round}

theorem later_places (p q : Text.Position) (t t' : Code) (body body' otherwise ns : List Node)
    (others : List (Code × List Node)) :
    (Node.loopPlacesOf [.conditional q t' body' others otherwise]).Sublist
      (Node.loopPlacesOf (.conditional p t body ((t', body') :: others) otherwise :: ns)) := by
  simp only [Node.loopPlacesOf, Node.loopPlaces, Node.loopPlacesOfOthers, Node.loopPlacesOfOther,
    List.append_nil, List.append_assoc]
  refine List.sublist_append_of_sublist_right ?_
  exact ((List.sublist_append_left _ _).append_left _).append_left _

theorem later_expressions (p q : Text.Position) (t t' : Code) (body body' otherwise ns : List Node)
    (others : List (Code × List Node)) :
    Node.expressionsOf [.conditional q t' body' others otherwise] ⊆
      Node.expressionsOf (.conditional p t body ((t', body') :: others) otherwise :: ns) := by
  intro c hc
  simp only [Node.expressionsOf, Node.expressions, Node.expressionsOfOthers,
    Node.expressionsOfOther, List.append_nil, List.mem_cons, List.mem_append] at hc ⊢
  grind

theorem At.placed (hr : reach.IsSafe free env)
    (hstart : Placed free env scope₀ [] scope₀ ns₀ w₀) (h : At reach scope₀ ns₀ w₀ rs scope ns w) :
    Placed free env scope₀ rs scope ns w := by
  induction h with
  | start => exact hstart
  | @behind _ _ n _ _ _ _ _ hn ih =>
    exact ih.rendered (fun hl hbinds => node_safe hr hl n hbinds) hn
      (List.sublist_append_left _ _) (List.sublist_append_right _ _)
      (List.subset_append_right _ _)
  | taken _ ht ih =>
    refine ih.tested hr ht ?_ fun c hc => List.mem_append_left _ (List.mem_cons_of_mem _ ?_)
    · exact Node.loopPlaces_branch List.mem_cons_self (.inl rfl)
    · exact List.mem_append_left _ (List.mem_append_left _ hc)
  | other _ ht ih =>
    refine ih.tested hr ht (later_places ..) (later_expressions ..)
  | «otherwise» _ ht ih =>
    refine ih.tested hr ht ?_ fun c hc => List.mem_append_left _ (List.mem_cons_of_mem _ ?_)
    · exact Node.loopPlaces_branch List.mem_cons_self (.inr (.inl rfl))
    · exact List.mem_append_right _ hc
  | holds _ ht ih =>
    refine ih.tested hr ht (List.sublist_append_left _ _) fun c hc => ?_
    exact List.mem_append_left _ (List.mem_cons_of_mem _ hc)
  | @again _ scope p t body ns _ _ _ _ _ ht hp ih =>
    have htested := ih.tested hr ht (.refl _) (List.Subset.refl _)
    have hbody : (Node.loopPlacesOf body).Sublist (Node.loopPlacesOf (.whileLoop p t body :: ns)) :=
      List.sublist_append_left _ _
    refine htested.rendered (fun hl hbinds => ?_) hp hbody (.refl _) (List.Subset.refl _)
    exact .bind (nodes_safe hr hl body hbinds) fun _ _ =>
      .bind (.markLine _) fun _ _ => .pure (suits_output _)
  | round _ hs hp hi ha ih => exact ih.entered hr hs hp hi ha

end Render

end Stencil
