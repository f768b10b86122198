import Stencil.Proofs.Aloof
import Stencil.Proofs.LoopNames
import Stencil.Proofs.Surroundings

/-!
# Loops inside of loops

A loop whose body mentions `loop` counts its passes, and so do all loops around it. What it tells
as its parent is the innermost loop around it whose target does not take the name away, and its
depth is the number of such loops and itself. Inside a body `loop` means the innermost of them;
where a boundary begins it means none.
-/

namespace Stencil

open Render

variable {free : Prop} {env : Environment} {h : Heap} {f r : Ref} {rs outer : List Round}

namespace LoopState

theorem property?_parent (s : LoopState) (h : Heap) :
    s.property? h "parent" = some (.ok s.parentValue) := rfl

theorem property?_depth (s : LoopState) (h : Heap) :
    s.property? h "depth" = some (.ok (.int (s.depth h))) := rfl

theorem parent_eq (s : LoopState) : s.parent = s.parentValue.loop? := by
  unfold parentValue
  cases s.parent with
  | none => rfl
  | some p => rfl

theorem parent_of_property? {s : LoopState} {v : Value}
    (hs : s.property? h "parent" = some (.ok v)) : s.parent = v.loop? := by
  rw [property?_parent] at hs
  cases hs
  exact s.parent_eq

end LoopState

/-- Following `parent` from a loop visits loops, the next one first, and comes to `None`. -/
inductive Heap.Parents (h : Heap) : Ref → List Ref → Prop
  | outermost {r : Ref} (hr : (h.loopState r).property? h "parent" = some (.ok .none)) :
      Parents h r []
  | inside {r p : Ref} {ps : List Ref}
      (hr : (h.loopState r).property? h "parent" = some (.ok (.loop p))) (hp : Parents h p ps) :
      Parents h r (p :: ps)

theorem Heap.IsSound.parent (hs : h.IsSound) {s : LoopState} {p : Ref}
    (hr : h.cells[r]? = some (.loop s)) (hp : s.parent = some p) :
    p < r ∧ ∃ s', h.cells[p]? = some (.loop s') := by
  have hfits : Suits h (Cell.loop s) := hs.cells hr
  have hoffers : h.Offers .loop p := by
    refine hfits (.loop, p) (List.mem_cons_of_mem _ (List.mem_map.mpr ⟨p, ?_, rfl⟩))
    rw [hp]
    exact List.mem_singleton_self p
  exact ⟨hs.parents hr hp, _, hoffers.loopState⟩

theorem Heap.Parents.nesting (hs : h.IsSound) {ps : List Ref} (hps : h.Parents r ps) :
    ∀ {s : LoopState}, h.cells[r]? = some (.loop s) → LoopState.nesting h r = ps.length + 1 := by
  induction hps with
  | outermost hr =>
    intro s _
    have hp := LoopState.parent_of_property? hr
    rw [LoopState.nesting, hp]
    rfl
  | @inside r p ps hr _ ih =>
    intro s hloop
    have hp : (h.loopState r).parent = some p := LoopState.parent_of_property? hr
    obtain ⟨hlt, s', hs'⟩ := hs.parent hloop (Heap.loopState_of_cell hloop ▸ hp)
    rw [LoopState.nesting, hp]
    dsimp only
    rw [if_pos hlt, ih hs', List.length_cons]

theorem Heap.Parents.depth (hs : h.IsSound) {ps : List Ref} (hps : h.Parents r ps)
    {s : LoopState} (hloop : h.cells[r]? = some (.loop s)) :
    (h.loopState r).property? h "depth" = some (.ok (.int (ps.length + 1))) := by
  have hdepth : (h.loopState r).depth h = LoopState.nesting h r := by
    unfold LoopState.depth
    rw [LoopState.nesting]
    cases hp : (h.loopState r).parent with
    | none => rfl
    | some p =>
      have hlt := (hs.parent hloop (Heap.loopState_of_cell hloop ▸ hp)).1
      dsimp only
      rw [if_pos hlt]
  rw [LoopState.property?_depth, hdepth, hps.nesting hs hloop]
  rfl

namespace Round

def isNamed (ρ : Round) : Bool := !ρ.target.expr.storedNames.contains "loop"

theorem counted_eq {ρ : Round} (hρ : Node.mention "loop" ρ.body = true) :
    ρ.scope.counted = ρ.isNamed := by
  change (Node.mention "loop" ρ.body && _) = _
  rw [hρ]
  rfl

theorem Stands.state_eq {ρ : Round} (hρ : Stands h f free outer ρ r) :
    ∃ i, h.cells[r]? = some (.loop { ρ.state r with index := i }) := by
  obtain ⟨i, hr, -⟩ := hρ.runs.loop
  exact ⟨i, hr⟩

/-- All loops count their passes if their bodies mention `loop`. -/
theorem AllStand.contexts_eq (hrs : AllStand h f free rs)
    (hmention : ∀ ρ ∈ rs, Node.mention "loop" ρ.body = true) :
    (contexts rs).map some = (rs.filter isNamed).map context := by
  induction hrs with
  | nil => rfl
  | @cons ρ rest _ hρ ih =>
    have hcounts := hmention ρ List.mem_cons_self
    have hrest := ih fun ρ' hρ' => hmention ρ' (List.mem_cons_of_mem _ hρ')
    unfold contexts
    rw [counted_eq hcounts]
    by_cases hnamed : ρ.isNamed = true
    · obtain ⟨r, hstands⟩ := hρ hcounts
      rw [if_pos hnamed, List.filter_cons_of_pos hnamed, hstands.context, List.map_cons,
        hstands.context, ← hrest]
      rfl
    · rw [if_neg hnamed, List.filter_cons_of_neg hnamed, hrest]

/-- From a loop that has these rounds around it, following `parent` visits the loops of those that
have a name. -/
theorem AllStand.parents (hrs : AllStand h f free rs)
    (hmention : ∀ ρ ∈ rs, Node.mention "loop" ρ.body = true) :
    ∀ {r : Ref} {s : LoopState}, h.cells[r]? = some (.loop s) →
      s.parent = (contexts rs).head? → h.Parents r (contexts rs) := by
  induction hrs with
  | nil =>
    intro r s hloop hparent
    refine .outermost ?_
    rw [Heap.loopState_of_cell hloop]
    rw [LoopState.property?_parent, LoopState.parentValue, hparent]
    rfl
  | @cons ρ rest _ hρ ih =>
    intro r s hloop hparent
    have hcounts := hmention ρ List.mem_cons_self
    have hrest := @ih fun ρ' hρ' => hmention ρ' (List.mem_cons_of_mem _ hρ')
    unfold contexts at hparent ⊢
    rw [counted_eq hcounts] at hparent ⊢
    by_cases hnamed : ρ.isNamed = true
    · obtain ⟨q, hstands⟩ := hρ hcounts
      obtain ⟨i, hq⟩ := hstands.state_eq
      rw [if_pos hnamed, hstands.context] at hparent ⊢
      refine .inside ?_ (hrest hq hstands.parent)
      rw [Heap.loopState_of_cell hloop]
      rw [LoopState.property?_parent, LoopState.parentValue, hparent]
      rfl
    · rw [if_neg hnamed] at hparent ⊢
      exact hrest hloop hparent

end Round

/-- What loops tell of each other where something is done inside of rounds. -/
structure Render.LoopsTold (frame : Ref) (rs : List Round) (own : Own) (w : World) : Prop where
  /-- A loop whose body mentions `loop` counts its passes. So do the loops around it; those that
  have a name are visited from it by following `parent`, and make its depth. If it has a name
  itself, it is what this name means. -/
  counted : ∀ (ρ : Round) (outer : List Round), ρ :: outer <:+ rs →
    Node.mention "loop" ρ.body = true → ∃ r parents, ρ.context = some r ∧
      (∀ ρ' ∈ outer, Node.mention "loop" ρ'.body = true ∧ ρ'.context.isSome) ∧
      parents.map some = (outer.filter Round.isNamed).map Round.context ∧
      w.heap.Parents r parents ∧
      (w.heap.loopState r).property? w.heap "depth" =
        some (.ok (.int ((outer.filter Round.isNamed).length + 1))) ∧
      (ρ.isNamed = true → w.heap.Denotes frame ρ.position r)
  /-- Inside of a body that mentions `loop` this is the name of its loop, if it has one. -/
  inside : ∀ (ρ : Round) (outer : List Round), rs = ρ :: outer →
    Node.mention "loop" ρ.body = true → ρ.isNamed = true → ∀ s, own.scope? = some s →
      ∀ locals, (∀ l ∈ locals, "loop" ∉ l.active) →
        Scope.isLoopAt frame ρ.position { s with locals := locals } "loop" = true
  /-- Outside of all loops it is what the render data says. -/
  outside : rs = [] → ∀ s, own.scope? = some s → ∀ locals, (∀ l ∈ locals, "loop" ∉ l.active) →
    Scope.lookup { s with locals := locals } "loop" =
      Scope.dataValue { s with locals := locals } "loop"

theorem Render.Surrounded.mentions {scope₀ : Scope} {own : Own} {w : World}
    (hsurrounded : Surrounded free env scope₀ rs own w) {ρ : Round} (hρ : ρ :: outer <:+ rs)
    (hmention : Node.mention "loop" ρ.body = true) :
    ∀ ρ' ∈ outer, Node.mention "loop" ρ'.body = true := by
  intro ρ' hρ'
  have hnested := hsurrounded.nested.sublist hρ.sublist
  exact Node.mention_of_subset (List.rel_of_pairwise_cons hnested hρ') hmention

theorem any_active_eq_false {locals : List LocalScope} (h : ∀ l ∈ locals, "loop" ∉ l.active) :
    locals.any (·.active.contains "loop") = false :=
  List.any_eq_false.mpr fun l hl hmem => h l hl (List.contains_iff_mem.mp hmem)

theorem Render.Surrounded.loopsTold {scope₀ : Scope} {own : Own} {w : World}
    (hsurrounded : Surrounded free env scope₀ rs own w) :
    LoopsTold scope₀.frame rs own w where
  counted ρ outer hsuffix hmention := by
    have hmentions := hsurrounded.mentions hsuffix hmention
    cases hsurrounded.rounds.of_suffix hsuffix with
    | cons houter hρ =>
      obtain ⟨r, hstands⟩ := hρ hmention
      obtain ⟨i, hloop⟩ := hstands.state_eq
      have hcontexts := houter.contexts_eq hmentions
      have hparents := houter.parents hmentions hloop hstands.parent
      have hlength : (Round.contexts outer).length = (outer.filter Round.isNamed).length := by
        rw [← List.length_map some, hcontexts, List.length_map]
      refine ⟨r, Round.contexts outer, hstands.context, fun ρ' hρ' => ⟨hmentions ρ' hρ', ?_⟩,
        hcontexts, hparents, ?_, fun hnamed => ?_⟩
      · obtain ⟨inner, rest, hsplit⟩ := List.append_of_mem hρ'
        have hrest : ρ' :: rest <:+ outer := ⟨inner, hsplit.symm⟩
        cases houter.of_suffix hrest with
        | cons _ hρ'' =>
          obtain ⟨q, hstands'⟩ := hρ'' (hmentions ρ' hρ')
          rw [hstands'.context]
          rfl
      · rw [hparents.depth hsurrounded.sound hloop, hlength]
      · have hcounted := (Round.counted_eq hmention).trans hnamed
        exact denotes_of_current hsurrounded.sound hsurrounded.frame
          (hstands.runs.named hcounted)
  inside ρ outer hrs hmention hnamed s hs locals hlocals := by
    have heq := hsurrounded.scope s hs
    subst hrs heq
    have hcounted := (Round.counted_eq hmention).trans hnamed
    unfold Scope.isLoopAt Scope.loopOf?
    dsimp only
    rw [any_active_eq_false hlocals, List.map_cons, List.find?_cons, hcounted]
    simp [Round.scope, loopScope]
  outside hrs s hs locals hlocals := by
    have heq := hsurrounded.scope s hs
    subst hrs heq
    unfold Scope.lookup
    dsimp only
    rw [any_active_eq_false hlocals]
    rfl

/-- Wherever a render does something, in whatever boundary, it does so inside of rounds of the loops
of the body it is in, and these tell faithfully how they are nested. -/
theorem loops_told_faithfully {t : Template} (ht : t.IsRead) {data : Value} {more : Bindings}
    {w : World} (hs : w.heap.IsSound) (henv : Suits w.heap env) (hmore : Suits w.heap more)
    {r : Ref} {w₀ : World}
    (hstart : (Template.startData env data more).run w = .ok r w₀) {hops : List Hop} {n : Nat}
    {e : Entry} {w₁ : World}
    (hreaches : Reaches env Evaluator.standard (t.entry env r) w₀ hops (n + 1) e w₁)
    {u : Template} {path : String} {ns : List Node} (hp : e.part.body? = some (u, path, ns))
    {frame : Ref} {w₂ : World}
    (hf : ((e.reach env Evaluator.standard n).evaluate (Eval.newFrame [])).run
      { w₁ with boundary := some e.boundary } = .ok frame w₂) {m : Moment}
    (hm : Visits (e.reach env Evaluator.standard n) ⟨e.data, u.lenient, frame, [], [], path⟩ ns
      w₂ m) : m.own = .endless ∨ ∃ rs,
      Does (e.reach env Evaluator.standard n) ⟨e.data, u.lenient, frame, [], [], path⟩ ns w₂ rs
        m.own m.world ∧ LoopsTold frame rs m.own m.world := by
  obtain ⟨hs₀, henv₀, -⟩ := kept_of_safe
    (fun (_ : Licence.Allows _ True env) => startData_safe henv hmore) hs henv hstart
  have hruns := standard_runsSafely env
  obtain ⟨hs₁, henv₁, hfrom⟩ := hreaches.kept hruns ht hs₀ henv₀
  refine (moment_surrounded hruns hfrom hs₁ henv₁ hp hf hm).imp_right ?_
  rintro ⟨rs, hdoes, hsurrounded⟩
  exact ⟨rs, hdoes, hsurrounded.loopsTold⟩

def Render.secondPass (reach : Reach) (scope : Scope) (p : Text.Position) (target source : Code)
    (body : List Node) (w : World) : Option World := do
  let (it, w) ← (started reach scope p target source body).result? (w.marked p.line)
  let (first?, w) ← (reach.evaluate (reach.ev.next it)).result? w
  let first ← first?
  let (_, w) ← (itemPass reach scope p target body first).result? w
  let (second?, w) ← (reach.evaluate (reach.ev.next it)).result? w
  let second ← second?
  let (_, w) ← (assigned reach scope p target body second).result? w
  return w

theorem Render.VisitsNode.secondPass {reach : Reach} {scope : Scope} {p : Text.Position}
    {k : LoopKeyword} {target source : Code} {body : List Node} {w w' : World} {m : Moment}
    (h : secondPass reach scope p target source body w = some w')
    (hm : Visits reach (innerScope scope p target body) body w' m) :
    VisitsNode reach scope (.loop p k target source body) w m := by
  obtain ⟨⟨it, w₁⟩, hs, hfirst⟩ := Option.bind_eq_some_iff.mp h
  obtain ⟨⟨_, w₂⟩, hi, hfirst⟩ := Option.bind_eq_some_iff.mp hfirst
  obtain ⟨first, rfl, hpass⟩ := Option.bind_eq_some_iff.mp hfirst
  obtain ⟨⟨out, w₃⟩, hp, hsecond⟩ := Option.bind_eq_some_iff.mp hpass
  obtain ⟨⟨_, w₄⟩, hi', hsecond⟩ := Option.bind_eq_some_iff.mp hsecond
  obtain ⟨second, rfl, htarget⟩ := Option.bind_eq_some_iff.mp hsecond
  obtain ⟨⟨_, w₅⟩, ha, hlast⟩ := Option.bind_eq_some_iff.mp htarget
  cases hlast
  exact .passes (Action.run_of_result? hs) (.next (Action.run_of_result? hi)
    (Action.run_of_result? hp) (.body (Action.run_of_result? hi') (Action.run_of_result? ha) hm))

def Node.askedDepth : List Node :=
  [.output ⟨1, 34⟩ ⟨⟨1, 34⟩, "loop.depth", .attribute (.name "loop") "depth"⟩ true]

def Node.innerLoop : List Node :=
  [.loop ⟨1, 17⟩ .foreach ⟨⟨1, 17⟩, "y", .name "y"⟩ ⟨⟨1, 17⟩, "xs", .name "xs"⟩ Node.askedDepth]

/-- A loop inside of a loop, where the inner one is asked for its depth. -/
def Node.nestedLoops : List Node :=
  [.loop ⟨1, 0⟩ .foreach ⟨⟨1, 0⟩, "x", .name "x"⟩ ⟨⟨1, 0⟩, "xs", .name "xs"⟩ Node.innerLoop]

def Template.nestedPage : Template where
  source := ⟨"@foreach(xs as x)@foreach(xs as y)\x7b\x7b loop.depth \x7d\x7d@endforeach@endforeach",
    none, none⟩
  tree := .page Node.nestedLoops
  lenient := false

def Tree.isNested : Tree → Bool
  | .page
    [.loop ⟨1, 0⟩ .foreach ⟨⟨1, 0⟩, "x", .name "x"⟩ ⟨⟨1, 0⟩, "xs", .name "xs"⟩
      [.loop ⟨1, 17⟩ .foreach ⟨⟨1, 17⟩, "y", .name "y"⟩ ⟨⟨1, 17⟩, "xs", .name "xs"⟩
        [.output ⟨1, 34⟩ ⟨⟨1, 34⟩, "loop.depth", .attribute (.name "loop") "depth"⟩ true]]] => true
  | _ => false

theorem Tree.eq_of_isNested {tree : Tree} (h : tree.isNested = true) :
    tree = .page Node.nestedLoops := by
  unfold isNested at h
  split at h
  · rfl
  · cases h

/-- A template is read if its source is, into a tree that is told from all others. -/
theorem Template.isRead_of_tree {t : Template} {isTree : Tree → Bool}
    (heq : ∀ tree, isTree tree = true → tree = t.tree)
    (h : (t.source.tree.toOption.any fun found => isTree found.1) = true) : t.IsRead := by
  obtain ⟨⟨tree, warnings⟩, hfound, htree⟩ := (Option.any_eq_true ..).mp h
  cases heq _ htree
  cases hs : t.source.tree with
  | ok found =>
    rw [hs] at hfound
    cases hfound
    exact ⟨warnings, hs⟩
  | error e =>
    rw [hs] at hfound
    cases hfound

theorem Template.nestedPage_isRead : Template.nestedPage.IsRead :=
  isRead_of_tree (fun _ => Tree.eq_of_isNested) (by decide +kernel)

/-- The scope of what the inner loop shows. -/
def Scope.insideNested (r frame : Ref) : Scope :=
  innerScope (innerScope ⟨r, false, frame, [], [], "render"⟩ ⟨1, 0⟩ ⟨⟨1, 0⟩, "x", .name "x"⟩
    Node.innerLoop) ⟨1, 17⟩ ⟨⟨1, 17⟩, "y", .name "y"⟩ Node.askedDepth

/-- Where the second pass of the inner loop, in the second pass of the outer one, begins. -/
def Render.nestedPasses (reach : Reach) (r frame : Ref) (w : World) : Option World := do
  let w ← secondPass reach ⟨r, false, frame, [], [], "render"⟩ ⟨1, 0⟩ ⟨⟨1, 0⟩, "x", .name "x"⟩
    ⟨⟨1, 0⟩, "xs", .name "xs"⟩ Node.innerLoop w
  secondPass reach (innerScope ⟨r, false, frame, [], [], "render"⟩ ⟨1, 0⟩
    ⟨⟨1, 0⟩, "x", .name "x"⟩ Node.innerLoop) ⟨1, 17⟩ ⟨⟨1, 17⟩, "y", .name "y"⟩
    ⟨⟨1, 17⟩, "xs", .name "xs"⟩ Node.askedDepth w

def Heap.inSecondPasses (h : Heap) : Bool :=
  h.cells.all fun
    | .loop s => s.index = 1
    | _ => true

/-- The inner body is come to in the second pass of both loops. -/
theorem nestedPage_visits {ev : Evaluator}
    (hev : ev = Evaluator.standard ∨ ev = Evaluator.reserved) :
    ∃ (r : Ref) (w₀ : World) (frame : Ref) (w₁ : World) (m : Moment) (code : Code),
    (Template.startData .bare .none [("xs", .tuple [.int 1, .int 2])]).run .fresh = .ok r w₀ ∧
    (((Template.nestedPage.entry .bare r).reach .bare ev Environment.bare.host.nested).evaluate
      (Eval.newFrame [])).run
      { w₀ with boundary := some (Template.nestedPage.entry .bare r).boundary } = .ok frame w₁ ∧
    Visits ((Template.nestedPage.entry .bare r).reach .bare ev Environment.bare.host.nested)
      ⟨r, false, frame, [], [], "render"⟩ Node.nestedLoops w₁ m ∧
    m.own = .shown (.insideNested r frame) code ∧ m.world.heap.inSecondPasses = true := by
  have hpasses : (nestedPasses ((Template.nestedPage.entry .bare 0).reach .bare ev
      Environment.bare.host.nested) 0 0 ⟨⟨#[], #[[]], #[⟨[("xs", .tuple [.int 1, .int 2])], []⟩]⟩,
        some (Template.nestedPage.entry .bare 0).boundary, #[]⟩).any
          (·.heap.inSecondPasses) = true := by
    rcases hev with rfl | rfl <;> decide +kernel
  obtain ⟨w', hpasses, hsecond⟩ := (Option.any_eq_true ..).mp hpasses
  obtain ⟨w, houter, hinner⟩ := Option.bind_eq_some_iff.mp hpasses
  have hvisits := VisitsNode.secondPass (k := .foreach) houter
    (.head (VisitsNode.secondPass (k := .foreach) hinner (.head .shown)))
  refine ⟨0, _, 0, _, _, _, rfl, ?_, .head hvisits, rfl, hsecond⟩
  rfl

/-- It is inside of both loops, and they tell so. -/
theorem nested_loops_told :
    Template.nestedPage.IsRead ∧ World.fresh.heap.IsSound ∧
    Suits World.fresh.heap Environment.bare ∧
    ∃ (r : Ref) (w₀ : World) (reach : Reach) (frame : Ref) (w₁ : World) (m : Moment)
      (scope : Scope) (code : Code) (rs : List Round),
      (Template.startData .bare .none [("xs", .tuple [.int 1, .int 2])]).run .fresh = .ok r w₀ ∧
      Visits reach ⟨r, false, frame, [], [], "render"⟩ Node.nestedLoops w₁ m ∧
      m.own = .shown scope code ∧
      Does reach ⟨r, false, frame, [], [], "render"⟩ Node.nestedLoops w₁ rs m.own m.world ∧
      LoopsTold frame rs m.own m.world := by
  have hread := Template.nestedPage_isRead
  have hs : World.fresh.heap.IsSound := Heap.empty_isSound
  have henv : Suits World.fresh.heap Environment.bare := Environment.bare_suits _
  have hmore : Suits World.fresh.heap ([("xs", .tuple [.int 1, .int 2])] : Bindings) := by simp
  obtain ⟨r, w₀, frame, w₁, m, code, hstart, hf, hm, hown, -⟩ := nestedPage_visits (.inl rfl)
  rcases loops_told_faithfully hread hs henv hmore hstart .start rfl hf hm with
    hendless | ⟨rs, hdoes, htold⟩
  · cases hown.symm.trans hendless
  · exact ⟨hread, hs, henv, r, w₀, _, frame, w₁, m, _, code, rs, hstart, hm, hown, hdoes,
      htold⟩

end Stencil
