import Stencil.Proofs.FramedCode
import Stencil.Proofs.LoopNesting
import Stencil.Proofs.UnaskedLoops

/-!
# Loops that are asked and loops that are not

Wherever a render comes to a loop whose body does not mention `loop`, it might as well ask for it: a
question that shows nothing makes the loop count its passes, and it makes the same ones. All items
are collected ahead then. So what they come from has to be left alone by the passes, unless it is a
list, and has to leave alone what the passes find.
-/

namespace Stencil

open Render

open Text (Position)

namespace Render

variable {env : Environment} {n : Nat} {e : Entry} {s : Scope} {p : Position} {target : Code}
  {body : List Node} {w w₁ w₂ : World} {v : Value}

/-- A loop that does not count goes over a value, from a state on, and its passes leave alone what
gives the items. A list they may change. Taking items from a generator has no effects on anything
else, as it has none if no code is run. -/
inductive Undisturbed (reach : Reach) (s : Scope) (p : Position) (target : Code)
    (body : List Node) (w : World) : Value → Prop
  | none : Undisturbed reach s p target body w .none
  | undefined : Undisturbed reach s p target body w .undefined
  | list (r : Ref) : Undisturbed reach s p target body w (.list r)
  | tuple (items : List Value) : Undisturbed reach s p target body w (.tuple items)
  | str (text : String) : Undisturbed reach s p target body w (.str text)
  | bytes (data : List UInt8) : Undisturbed reach s p target body w (.bytes data)
  | range (start stop step : Int) : Undisturbed reach s p target body w (.range start stop step)
  | dict {r : Ref} (h : Keeps reach s p target body (.dict r) (· = r) w) :
      Undisturbed reach s p target body w (.dict r)
  | view {kind : ViewKind} {r : Ref} (h : Keeps reach s p target body (.view kind r) (· = r) w) :
      Undisturbed reach s p target body w (.view kind r)
  | set {r : Ref} (h : Keeps reach s p target body (.set r) (· = r) w) :
      Undisturbed reach s p target body w (.set r)
  | iterator {kind : IteratorKind} {r : Ref} (σ : Supply) (hr : σ.iterators r)
      (hsupplies : w.heap.Supplies σ)
      (hleaves : ∀ i v w₁ w₂, Passes reach s p target body (.iterator kind r) i w w₁ →
        (reach.evaluate (Evaluator.standard.next (.iterator kind r))).run w₁ = .ok (some v) w₂ →
        (itemPass reach s p target body v).Leaves σ w₂) :
      Undisturbed reach s p target body w (.iterator kind r)
  | generator {kind : IteratorKind} {r : Ref} (S : Heap → Prop) (σ : Supply)
      (hdraws : Draws S σ (fun _ => True) (Evaluator.standard.next (.iterator kind r)))
      (hstate : S w.heap)
      (hleaves : ∀ i v w₁ w₂, Passes reach s p target body (.iterator kind r) i w w₁ →
        (reach.evaluate (Evaluator.standard.next (.iterator kind r))).run w₁ = .ok (some v) w₂ →
        (itemPass reach s p target body v).Leaves σ w₂) :
      Undisturbed reach s p target body w (.iterator kind r)

/-- So the loop over such a value comes to the same whether it is asked or not. -/
theorem Unasked.agrees {q : Position} (hu : Unasked env e s p body w) (hv : Suits w.heap v)
    (h : Undisturbed (e.reach env Evaluator.standard n) s p target body w v) :
    Concur w.heap.cells.size
      ((loopOver (e.reach env Evaluator.standard n) s p target body (sourceValue v)).run w)
      ((loopOver (e.reach env Evaluator.standard n) s p target (body ++ [.ifLoop q])
        (sourceValue v)).run w) := by
  have hnothing (v : Value) : Keeps (e.reach env Evaluator.standard n) s p target body v
      (fun _ => False) w := fun _ _ _ _ _ _ _ hr => hr.elim
  cases h with
  | none | undefined => exact hu.over_settled (suits_of_isEmpty rfl) rfl (hnothing _)
  | list r =>
    obtain ⟨-, c, hc, -⟩ : w.heap.Offers .list r := hv _ List.mem_cons_self
    exact hu.over_list (Array.getElem?_eq_some_iff.mp hc).1
  | tuple | str | bytes | range => exact hu.over_settled hv rfl (hnothing _)
  | dict h | view h | set h => exact hu.over_settled hv rfl h
  | @iterator kind r σ hr hsupplies hleaves =>
    have hin : (Value.iterator kind r).IsIn σ := by
      rintro _ _ ⟨⟩
      exact hr
    exact hu.over_iterator (standard_draws hin) hv hsupplies hleaves
  | generator S σ hdraws hstate hleaves => exact hu.over_iterator hdraws hv hstate hleaves

section Reached

variable {u : Template} {path : String} {ns ns' : List Node} {frame : Ref} {source : Code}
  {rs : List Round} {k : LoopKeyword}

/-- Evaluating the source changes nothing about the surroundings of a loop. -/
theorem Unasked.evaluated (hu : Unasked env e s p body w)
    (hv : (evalCode (e.reach env Evaluator.standard n) s source).run w = .ok v w₂) :
    Unasked env e s p body w₂ ∧ Suits w₂.heap v := by
  have hruns := standard_runsSafely env
  obtain ⟨hs, henv, hsuits⟩ := kept_of_safe (fun hl =>
    evalCode_safe (reach_isSafe hruns n e) hl source) hu.sound hu.env hv
  have hreach : Reach.Twin (.muted True s.frame p) (e.reach env Evaluator.standard n)
      (e.reach env Evaluator.standard n) := reach_muted True s.frame p env _ n e.data hu.sections
  have hkept : w.Kept (.muted True s.frame p) w.heap.frames := ⟨⟨hu.quiet, rfl, rfl⟩, .refl _⟩
  have hkept₂ := hkept.after (fun _ _ => evalCode_muted hreach hu.outer source) hv
  exact ⟨⟨hu.sections, hu.locals, hu.outer, hu.silent, hs, henv, hu.counting.mono hkept₂.grows,
    hkept₂.twin.heap⟩, hsuits⟩

theorem Placed.counting {free : Prop} {scope₀ : Scope} (h : Placed free env scope₀ rs s ns w) :
    s.Counting w.heap.frames := by
  obtain rfl := h.scope
  refine ⟨h.frame, fun l hl hcounted => ?_⟩
  obtain ⟨ρ, hρ, rfl⟩ := List.mem_map.mp hl
  obtain ⟨inner, outer, hsplit⟩ := List.append_of_mem hρ
  cases h.rounds.of_suffix ⟨inner, hsplit.symm⟩ with
  | cons _ hstands =>
    obtain ⟨r, hr⟩ := hstands (Round.counted_iff.mp hcounted).1
    exact Option.isSome_of_eq_some (hr.runs.named hcounted)

theorem At.unasked (he : e.From Template.IsRead) (hs : w.heap.IsSound) (hframed : w.heap.IsFramed)
    (henv : Suits w.heap env) (hp : e.part.body? = some (u, path, ns))
    (hf : ((e.reach env Evaluator.standard n).evaluate (Eval.newFrame [])).run
      { w with boundary := some e.boundary } = .ok frame w₁)
    (h : At (e.reach env Evaluator.standard n) ⟨e.data, u.lenient, frame, [], [], path⟩ ns w₁ rs s
      (.loop p k target source body :: ns') w₂)
    (hbody : Node.mention "loop" body = false) : Unasked env e s p body w₂ := by
  obtain ⟨hread, hns⟩ := body_from he hp
  have hplaced := h.placed (reach_isSafe (standard_runsSafely env) n e)
    (body_placed he hs henv hp hf)
  have hsections := he.sections.any
  have houter : ∀ l ∈ s.loops, l.position ≠ p := by
    rw [hplaced.scope]
    rintro _ hl rfl
    obtain ⟨ρ, hρ, rfl⟩ := List.mem_map.mp hl
    exact List.disjoint_of_nodup_append hplaced.apart (List.mem_map_of_mem hρ) List.mem_cons_self
  have hquiet : w₂.heap.Twin (.muted True s.frame p) w₂.heap := by
    have hheap := evaluate_inv hf
    injection hheap with hframe hheap
    have hw₁ : w₁.heap.Twin (.muted False frame p) w₁.heap := by
      rw [← hheap, ← hframe]
      refine hframed.twin rfl (Nat.le_refl _) ?_
      dsimp only
      rw [Array.size_push]
      exact Nat.lt_succ_self _
    have hfits : Node.Fits (.muted False frame p) false w₁.heap.frames
        ⟨e.data, u.lenient, frame, [], [], path⟩ ns :=
      ⟨rfl, fun loops whole hw context e he => ⟨rfl, fun _ hl =>
        h.isPart.silent (hread.loopPlaces_nodup hns) hbody hw he hl⟩, fun ha => ha.1.elim, nofun,
        nofun⟩
    have hkept := h.kept (reach_muted False frame p env _ n e.data hsections) rfl hfits
      (fun ha => ha.1) ⟨⟨hw₁, rfl, rfl⟩, .refl _⟩
    rw [hplaced.frame_eq]
    exact hkept.twin.heap.differing
  exact ⟨hsections, by rw [hplaced.scope], houter, hbody, hplaced.sound, hplaced.env,
    hplaced.counting, hquiet⟩

theorem Unasked.marked (hu : Unasked env e s p body w) (line : Nat) :
    Unasked env e s p body (w.marked line) := { hu with }

theorem loopTaken_run {reach : Reach}
    (hv : (evalCode reach s source).run (w.marked p.line) = .ok v w₂) :
    (loopTaken reach s p target source body).run (w.marked p.line) =
      (loopOver reach s p target body (sourceValue v)).run w₂ := by
  have hmark : (Action.markLine p.line).run (w.marked p.line) = .ok () (w.marked p.line) := by
    rw [markLine_run, marked_marked]
  exact (Action.bind_of_ok hmark _).trans (Action.bind_of_ok hv _)

end Reached

end Render

variable {env : Environment}

/-- Wherever a render comes to a loop that does not mention `loop`, and whose source gives its items
undisturbed, a question for `loop` behind the body changes nothing: the loop makes its passes for
the same items and gives the same output, or fails like the one without it. -/
theorem unasked_loop_agrees {t : Template} (ht : t.IsRead) {data : Value} {more : Bindings}
    {w : World} (hs : w.heap.IsSound) (hframed : w.heap.IsFramed) (henv : Suits w.heap env)
    (hmore : Suits w.heap more) {r : Ref} {w₀ : World}
    (hstart : (Template.startData env data more).run w = .ok r w₀) {hops : List Hop} {n : Nat}
    {e : Entry} {w₁ : World}
    (hreaches : Reaches env Evaluator.standard (t.entry env r) w₀ hops (n + 1) e w₁)
    {u : Template} {path : String} {ns : List Node} (hp : e.part.body? = some (u, path, ns))
    {frame : Ref} {w₂ : World}
    (hf : ((e.reach env Evaluator.standard n).evaluate (Eval.newFrame [])).run
      { w₁ with boundary := some e.boundary } = .ok frame w₂) {m : Moment}
    (hm : Visits (e.reach env Evaluator.standard n) ⟨e.data, u.lenient, frame, [], [], path⟩ ns
      w₂ m) {s : Scope} {p : Position} {target source : Code} {body : List Node}
    (hown : m.own = .source s p target source body) (hbody : Node.mention "loop" body = false)
    {v : Value} {w₃ : World}
    (hv : (evalCode (e.reach env Evaluator.standard n) s source).run m.world = .ok v w₃)
    (hitems : Undisturbed (e.reach env Evaluator.standard n) s p target body w₃ v)
    (q : Position) :
    Concur w₃.heap.cells.size
      ((loopTaken (e.reach env Evaluator.standard n) s p target source body).run m.world)
      ((loopTaken (e.reach env Evaluator.standard n) s p target source
        (body ++ [.ifLoop q])).run m.world) ∧
    ∀ k b, node (e.reach env Evaluator.standard n) s (.loop p k target source b) =
      Prod.fst <$> loopTaken (e.reach env Evaluator.standard n) s p target source b := by
  refine ⟨?_, fun k b => node_eq_loopTaken _ s p k target source b⟩
  obtain ⟨hs₀, henv₀, -⟩ := kept_of_safe
    (fun (_ : Licence.Allows _ True env) => startData_safe henv hmore) hs henv hstart
  obtain ⟨hs₁, henv₁, hfrom⟩ := hreaches.kept (standard_runsSafely env) ht hs₀ henv₀
  have hframed₁ := hreaches.framed ht hs₀ henv₀ (startData_framed hframed hstart)
  obtain ⟨own, line, passed, world⟩ := m
  cases hown
  rcases hm.isDone .start with hendless | ⟨rs, hdoes⟩
  · cases hendless
  · cases hdoes with
    | source h =>
      have hu := h.unasked hfrom hs₁ hframed₁ henv₁ hp hf hbody
      obtain ⟨hu₃, hsuits⟩ := (hu.marked p.line).evaluated hv
      have hagree := hu₃.agrees (q := q) hsuits hitems
      rwa [← loopTaken_run hv, ← loopTaken_run hv] at hagree

/-- A loop that takes items away from the list that it goes over. -/
def Node.shrinkingLoop : List Node :=
  [.loop ⟨1, 0⟩ .foreach ⟨⟨1, 0⟩, "x", .name "x"⟩ ⟨⟨1, 0⟩, "xs", .name "xs"⟩
    [.output ⟨1, 17⟩ ⟨⟨1, 17⟩, "x", .name "x"⟩ true,
      .output ⟨1, 24⟩ ⟨⟨1, 24⟩, "xs.pop()", .call (.attribute (.name "xs") "pop") [] []⟩ true]]

def Template.shrinkingPage : Template where
  source := ⟨"@foreach(xs as x)\x7b\x7b x \x7d\x7d\x7b\x7b xs.pop() \x7d\x7d@endforeach", none,
    none⟩
  tree := .page Node.shrinkingLoop
  lenient := false

def Tree.isShrinking : Tree → Bool
  | .page
    [.loop ⟨1, 0⟩ .foreach ⟨⟨1, 0⟩, "x", .name "x"⟩ ⟨⟨1, 0⟩, "xs", .name "xs"⟩
      [.output ⟨1, 17⟩ ⟨⟨1, 17⟩, "x", .name "x"⟩ true,
        .output ⟨1, 24⟩ ⟨⟨1, 24⟩, "xs.pop()", .call (.attribute (.name "xs") "pop") [] []⟩ true]] =>
    true
  | _ => false

theorem Tree.eq_of_isShrinking {tree : Tree} (h : tree.isShrinking = true) :
    tree = .page Node.shrinkingLoop := by
  unfold isShrinking at h
  split at h
  · rfl
  · cases h

theorem Template.shrinkingPage_isRead : Template.shrinkingPage.IsRead :=
  isRead_of_tree (fun _ => Tree.eq_of_isShrinking) (by decide +kernel)

/-- A world with a list of three items. -/
def World.listed : World :=
  { World.fresh with heap := ⟨#[.list #[.int 1, .int 2, .int 3]], #[], #[]⟩ }

theorem World.listed_isSound : World.listed.heap.IsSound where
  cells := fun {r _} hr => by
    cases r with
    | zero =>
      cases hr
      exact suits_of_isEmpty rfl
    | succ r => cases hr
  values hx := nomatch hx
  data _ := suits_of_isEmpty rfl
  followed := fun {r _} hr => by
    cases r with
    | zero => cases hr
    | succ r => cases hr
  parents := fun {r _ _} hr => by
    cases r with
    | zero => cases hr
    | succ r => cases hr

theorem shrinkingPage_visits (n : Nat) :
    ∃ (r : Ref) (w₀ : World) (frame : Ref) (w₁ : World) (m : Moment) (s : Scope)
      (p : Position) (target source : Code) (body : List Node) (w₂ : World),
    (Template.startData .bare .none [("xs", .list 0)]).run .listed = .ok r w₀ ∧
    (((Template.shrinkingPage.entry .bare r).reach .bare Evaluator.standard n).evaluate
      (Eval.newFrame [])).run
        { w₀ with boundary := some (Template.shrinkingPage.entry .bare r).boundary } =
      .ok frame w₁ ∧
    Visits ((Template.shrinkingPage.entry .bare r).reach .bare Evaluator.standard n)
      ⟨r, false, frame, [], [], "render"⟩ Node.shrinkingLoop w₁ m ∧
    m.own = .source s p target source body ∧ Node.mention "loop" body = false ∧
    (evalCode ((Template.shrinkingPage.entry .bare r).reach .bare Evaluator.standard n) s
      source).run m.world = .ok (.list 0) w₂ :=
  ⟨_, _, _, _, _, _, _, _, _, _, _, rfl, rfl, .head .source, rfl, rfl, rfl⟩

/-- It shows the same items with a question behind its body. -/
theorem shrinking_list_agrees :
    Template.shrinkingPage.IsRead ∧ World.listed.heap.IsSound ∧ World.listed.heap.IsFramed ∧
    Suits World.listed.heap Environment.bare ∧
    ∃ (r : Ref) (w₀ : World) (reach : Reach) (frame : Ref) (w₁ : World) (m : Moment) (s : Scope)
      (p : Position) (target source : Code) (body : List Node) (w₂ : World),
      (Template.startData .bare .none [("xs", .list 0)]).run .listed = .ok r w₀ ∧
      Visits reach ⟨r, false, frame, [], [], "render"⟩ Node.shrinkingLoop w₁ m ∧
      m.own = .source s p target source body ∧ Node.mention "loop" body = false ∧
      (evalCode reach s source).run m.world = .ok (.list 0) w₂ ∧
      Undisturbed reach s p target body w₂ (.list 0) ∧
      Concur w₂.heap.cells.size ((loopTaken reach s p target source body).run m.world)
        ((loopTaken reach s p target source (body ++ [.ifLoop p])).run m.world) := by
  have hread := Template.shrinkingPage_isRead
  have hs := World.listed_isSound
  have hframed : World.listed.heap.IsFramed := fun c hc s hscope => by
    cases Array.mem_singleton.mp hc
    cases hscope
  have henv : Suits World.listed.heap Environment.bare := Environment.bare_suits _
  have hmore : Suits World.listed.heap ([("xs", .list 0)] : Bindings) := by
    rintro _ hx
    cases List.mem_singleton.mp hx
    exact ⟨fun ⟨_, _, _, h⟩ => (nomatch h), _, rfl, rfl⟩
  obtain ⟨r, w₀, frame, w₁, m, s, p, target, source, body, w₂, hstart, hf, hm, hown, hbody, hv⟩ :=
    shrinkingPage_visits Environment.bare.host.nested
  have hitems : Undisturbed ((Template.shrinkingPage.entry .bare r).reach .bare Evaluator.standard
      Environment.bare.host.nested) s p target body w₂ (.list 0) := .list 0
  obtain ⟨hagrees, -⟩ := unasked_loop_agrees hread hs hframed henv hmore hstart .start rfl hf hm
    hown hbody hv hitems p
  exact ⟨hread, hs, hframed, henv, r, w₀, _, frame, w₁, m, s, p, target, source, body, w₂, hstart,
    hm, hown, hbody, hv, hitems, hagrees⟩

example : (["", "@if(loop)@endif"].map fun question => ((do
      let t ← Environment.bare.compile ("@foreach(xs as x)\x7b\x7b x \x7d\x7d" ++
        "\x7b\x7b xs.pop() \x7d\x7d" ++ question ++ "@endforeach") none
      t.render .bare .none [("xs", .list 0)] : Action Output).value? .listed).map Output.text) =
    [some "1322", some "1322"] := by
  decide +kernel

/-- A generator that takes items from a list is done with that before the first pass of a loop that
counts. -/
theorem popping_generator_told_apart :
    ((do
      let t ← Environment.bare.compile
        "@foreach((xs.pop() for _ in (1, 2)) as x)\x7b\x7b xs \x7d\x7d@endforeach" none
      t.render .bare .none [("xs", .list 0)] : Action Output).value? .listed).map Output.text =
        some "[1, 2][1]" ∧
    ((do
      let t ← Environment.bare.compile
        ("@foreach((xs.pop() for _ in (1, 2)) as x)\x7b\x7b xs \x7d\x7d" ++
          "@if(loop)@endif@endforeach") none
      t.render .bare .none [("xs", .list 0)] : Action Output).value? .listed).map Output.text =
        some "[1][1]" := by
  decide +kernel

end Stencil
