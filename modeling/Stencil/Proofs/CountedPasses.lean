import Stencil.Proofs.JoinedRenders
import Stencil.Proofs.QuietLoops
import Stencil.Proofs.SafeRenders
import Stencil.Proofs.TakenItems

/-!
# Passes of loops that count for nothing

A body that does not mention `loop` is followed by a question for `loop` that shows nothing. So its
loop counts its passes: it has cells of its own and a variable more. Beside these a pass does in the
one heap what it does in the other.
-/

namespace Stencil

open Render

open Text (Position)

/-- A question for `loop`, at `q`, that shows nothing. -/
def Node.ifLoop (q : Position) : Node := .conditional q ⟨q, "loop", .name "loop"⟩ [] [] []

theorem Node.mention_ifLoop (body : List Node) (q : Position) :
    Node.mention "loop" (body ++ [.ifLoop q]) = true := by
  have hquestion : Node.mention "loop" [.ifLoop q] = true := rfl
  refine Node.mention_of_subset (fun code hcode => ?_) hquestion
  induction body with
  | nil => exact hcode
  | cons n body ih => exact List.mem_append_right _ ih

theorem Heap.Twin.inert_iff {l : Leeway} {h h' : Heap} (ht : h.Twin l h') {r : Ref} {c : Cell}
    (hc : c.IsInert) : h.cells[r]? = some c ↔ h'.cells[r]? = some c := by
  rcases ht.cells_at r with ⟨hr, hr'⟩ | ⟨d, d', hr, hr', htwin⟩
  · rw [hr, hr']
  · rw [hr, hr']
    cases htwin with
    | inert => exact Iff.rfl
    | function => exact iff_of_false (by rintro ⟨⟩; exact hc) (by rintro ⟨⟩; exact hc)
    | generator => exact iff_of_false (by rintro ⟨⟩; exact hc) (by rintro ⟨⟩; exact hc)

/-- Where the first heap has cells without code from `n` to `n + k`, the second has the same. -/
def Heap.Retains (h : Heap) (n k : Nat) (h' : Heap) : Prop :=
  ∀ r cell, n ≤ r → r < n + k → cell.IsInert → h.cells[r]? = some cell → h'.cells[r]? = some cell

namespace Render

variable {env : Environment} {m : Nat} {e : Entry} {s : Scope} {p q : Position} {target : Code}
  {body : List Node} {n k : Nat} {c w : World}

section Unmoved

variable {ρ : Renaming} (hframe : ρ.frame = id) (hdata : ρ.data = id)
  (hplace : ρ.place = fun _ => id) (henv : ρ.Fixes env) {frames : Array Frame}

include hdata henv in
theorem reaches_unmoved :
    ρ.Reaches (e.reach env Evaluator.standard m) (e.reach env Evaluator.standard m) := by
  have hreaches := Renaming.around_reaches (Renaming.part_follows ρ.standard_evaluates env m) env
    ρ.standard_evaluates (env.host.calls m) e.data e.sections
  rwa [Renaming.environment_fixed env henv, hdata] at hreaches

include hframe hdata hplace henv in
theorem itemPass_follows (hs : s.Counting frames) (hbody : Node.mention "loop" body = false)
    (v : Value) : ρ.Follows id frames
      (itemPass (e.reach env Evaluator.standard m) s p target body v)
      (itemPass (e.reach env Evaluator.standard m) s p target body (ρ.value v)) := by
  have hr : ρ.Reaches (e.reach env Evaluator.standard m) (e.reach env Evaluator.standard m) :=
    reaches_unmoved hdata henv
  have hassigned : ρ.Follows id frames
      (assigned (e.reach env Evaluator.standard m) s p target body v) _ :=
    Renaming.assigned_follows hr s p target body v
  rw [Renaming.scope_unmoved hframe hdata hplace, hplace, Node.movedAll_id] at hassigned
  refine .bind hassigned fun frames₁ _ hg => ?_
  have hinner : (innerScope s p target body).Counting frames₁ := by
    refine Renaming.counting_inner (hs.mono hg) fun hcounted => ?_
    rw [loopScope, hbody] at hcounted
    cases hcounted
  have hnodes := Renaming.nodes_follows hr body #[] hinner
  rwa [Renaming.scope_unmoved hframe hdata hplace, hplace, Node.movedAll_id] at hnodes

end Unmoved

/-- With more cells from `n` on, a pass does what it does without them. -/
theorem pass_past (henv : (Renaming.past n k).Fixes env) (hs : s.Counting c.heap.frames)
    (hbody : Node.mention "loop" body = false) (hw : (Renaming.past n k).Worlds c w) (v : Value) :
    Accord id (fun c₁ w₁ => (Renaming.past n k).Worlds c₁ w₁ ∧
        (Renaming.past n k).Beside w.heap w₁.heap ∧ Grows c.heap.frames c₁.heap.frames)
      ((itemPass (e.reach env Evaluator.standard m) s p target body v).run c)
      ((itemPass (e.reach env Evaluator.standard m) s p target body
        ((Renaming.past n k).value v)).run w) := by
  have hspared : ((Renaming.past n k).sparing w.heap).Fixes env := henv
  have hfollows : ((Renaming.past n k).sparing w.heap).Follows id c.heap.frames
      (itemPass (e.reach env Evaluator.standard m) s p target body v) _ :=
    itemPass_follows rfl rfl rfl hspared hs hbody v
  rw [Renaming.sparing_value] at hfollows
  exact hfollows.sparing rfl trivial hw

def askedScope (p : Position) (target : Code) (body : List Node) (q : Position) : LoopScope :=
  loopScope p target (body ++ [.ifLoop q])

/-- In such a loop `loop` has a meaning, by its targets or because it counts. -/
theorem askedScope_binds (p : Position) (target : Code) (body : List Node) (q : Position) :
    (askedScope p target body q).Binds "loop" := by
  by_cases hnames : target.expr.storedNames.contains "loop" = true
  · exact .inl hnames
  · refine .inr ⟨?_, rfl⟩
    change (Node.mention "loop" _ && !target.expr.storedNames.contains "loop") = true
    rw [Node.mention_ifLoop, Bool.eq_false_iff.mpr hnames]
    rfl

theorem ifLoop_run {reach : Reach} (hev : reach.ev = Evaluator.standard) {l : LoopScope}
    (hlocals : s.locals = []) (hl : l.Binds "loop")
    (hassigned : Assigned w.heap.frames s.frame (.ofLoop l.position "loop")) (out : Output) :
    (nodes reach { s with loops := l :: s.loops } out [.ifLoop q]).run w =
      .ok out (w.marked q.line) := by
  obtain ⟨v, hv⟩ := Option.isSome_iff_exists.mp hassigned
  let inner : Scope := { s with loops := l :: s.loops }
  have hloop : inner.loopOf? "loop" = some l := by
    unfold Scope.loopOf?
    rw [List.find?_cons, LoopScope.binds_iff.mp hl]
  have hname (calls : Nat) :
      (Evaluator.standard.eval inner (.name "loop")).run calls w.heap = .ok v w.heap := by
    have hlookup : Evaluator.standard.eval inner (.name "loop") = inner.lookup "loop" := rfl
    rw [hlookup]
    unfold Scope.lookup
    rw [show inner.locals = [] from hlocals, hloop]
    refine (frame_bind_run _ _ _ _).trans ?_
    rw [hv]
    rfl
  have htest : (test reach inner ⟨q, "loop", .name "loop"⟩).run (w.marked q.line) =
      .ok (Value.truth w.heap v) (w.marked q.line) := by
    have heval : (evalCode reach inner ⟨q, "loop", .name "loop"⟩).run (w.marked q.line) =
        .ok v (w.marked q.line) := by
      refine evaluate_ok (w := w.marked q.line) ?_
      rw [hev]
      exact hname _
    exact Action.bind_of_ok heval _
  have hnode : (node reach inner (.ifLoop q)).run w = .ok #[] (w.marked q.line) := by
    unfold Node.ifLoop
    rw [node]
    refine (Action.bind_of_ok (markLine_run q.line w) _).trans ?_
    refine (Action.bind_of_ok htest _).trans ?_
    cases Value.truth w.heap v <;> rfl
  rw [nodes]
  refine (Action.bind_of_ok hnode _).trans ?_
  rw [Array.append_empty]
  rfl

/-- The world `w` of a run where the loop at `p` counts its passes stands for the world `c` of a run
where it does not: it has `k` cells more from `n` on, and the loop has its variable. -/
structure Counts (s : Scope) (l : LoopScope) (n k : Nat) (c w : World) : Prop where
  plain : ∃ w', (Renaming.past n k).Worlds c w' ∧ w.Twin (.muted True s.frame l.position) w'
  named : l.counted = true → Assigned w.heap.frames s.frame (.ofLoop l.position "loop")

theorem muted_not_lost {f : Ref} {stop : Stop} {data : Array RenderData} :
    ¬ stop.Lost (.muted True f p) data := by
  rintro ⟨_, _, hl, -⟩
  exact hl

theorem past_marked (h : (Renaming.past n k).Worlds c w) (line : Nat) :
    (Renaming.past n k).Worlds c (w.marked line) where
  heap := h.heap
  boundary := by
    have hb := h.boundary
    change Option.Rel _ c.boundary (w.boundary.map _)
    generalize c.boundary = b, w.boundary = b' at hb ⊢
    cases hb with
    | none => exact .none
    | some hb => exact .some ⟨False.elim, hb.level.depth, hb.level.limit, hb.level.chain⟩

theorem Counts.frame_lt {l : LoopScope} (h : Counts s l n k c w) (hs : s.Counting c.heap.frames) :
    s.frame < w.heap.frames.size := by
  obtain ⟨w', hcw, htwin⟩ := h.plain
  have hlt : s.frame < w'.heap.frames.size := hcw.heap.framed _ hs.frame
  rwa [Tally.size_eq _ htwin.heap.frames] at hlt

theorem itemPass_asked {reach : Reach} (v : Value) :
    itemPass reach s p target (body ++ [.ifLoop q]) v = (do
      let out ← (do
        assigned reach s p target (body ++ [.ifLoop q]) v
        nodes reach (innerScope s p target (body ++ [.ifLoop q])) #[] body)
      nodes reach (innerScope s p target (body ++ [.ifLoop q])) out [.ifLoop q]) := by
  unfold itemPass
  rw [bind_assoc]
  exact bind_congr fun _ => nodes_append _ _ _ _ _

/-- A pass that is counted does what one that is not does. -/
theorem pass_counts (hsections : Sections.From (fun _ => True) e.sections)
    (henv : (Renaming.past n k).Fixes env) (hlocals : s.locals = [])
    (houter : ∀ l ∈ s.loops, l.position ≠ p) (hs : s.Counting c.heap.frames)
    (hbody : Node.mention "loop" body = false)
    (hw : Counts s (askedScope p target body q) n k c w) (v : Value) :
    Accord id (fun c₁ w₁ => Counts s (askedScope p target body q) n k c₁ w₁ ∧
        w.heap.Retains n k w₁.heap ∧ Grows c.heap.frames c₁.heap.frames)
      ((itemPass (e.reach env Evaluator.standard m) s p target body v).run c)
      ((itemPass (e.reach env Evaluator.standard m) s p target (body ++ [.ifLoop q])
        ((Renaming.past n k).value v)).run w) := by
  obtain ⟨w', hcw, htwin⟩ := hw.plain
  have hplain : Accord id _
      ((itemPass (e.reach env Evaluator.standard m) s p target body v).run c) _ :=
    pass_past henv hs hbody hcw v
  have hr : Reach.Twin (.muted True s.frame p) (e.reach env Evaluator.standard m)
      (e.reach env Evaluator.standard m) := reach_muted True s.frame p env _ m e.data hsections
  have hmuted := pass_muted hr houter hlocals target (body ++ [.ifLoop q]) hbody
    ((Renaming.past n k).value v) w w' htwin (.refl _)
  rw [itemPass_asked, EStateM.run_bind]
  generalize EStateM.run (itemPass _ s p target body v) c = r₀,
    EStateM.run (itemPass _ s p target body _) w' = r', EStateM.run (do _; _) w = r
    at hplain hmuted ⊢
  cases hplain with
  | error =>
    cases hmuted with
    | error => exact .error
    | lost hl => exact (muted_not_lost hl).elim
  | @ok out c₁ w₁' hc₁ =>
    obtain ⟨hcw₁, hbeside, hgrows⟩ := hc₁
    cases hmuted with
    | lost hl => exact (muted_not_lost hl).elim
    | @ok out' _ w₁ _ htwin₁ hg hout =>
      obtain ⟨rfl, htargets⟩ := hout
      have hassigned : Assigned w₁.heap.frames s.frame (.ofLoop p "loop") := by
        rcases askedScope_binds p target body q with hname | ⟨hcounted, -⟩
        · exact htargets (hw.frame_lt hs) _ (List.contains_iff_mem.mp hname)
        · exact hg.assigned _ _ (hw.named hcounted)
      change Accord id _ _ ((nodes _ _ out' [.ifLoop q]).run w₁)
      rw [show innerScope s p target (body ++ [.ifLoop q]) =
          { s with loops := askedScope p target body q :: s.loops } from rfl,
        ifLoop_run rfl hlocals (askedScope_binds p target body q) hassigned]
      refine .ok ⟨⟨⟨_, past_marked hcw₁ q.line, htwin₁.marked q.line⟩, fun hcounted =>
        hg.assigned _ _ (hw.named hcounted)⟩, fun r cell hn hk hcell hr => ?_, hgrows⟩
      have hr' := (htwin.heap.inert_iff hcell).mp hr
      exact (htwin₁.heap.inert_iff hcell).mpr
        (hbeside r cell (Renaming.shifted_apart ⟨hn, hk⟩) hr')

/-- A cell without code among those that the second world has more may be any. -/
theorem Counts.write {l : LoopScope} (h : Counts s l n k c w) {r : Ref} (hn : n ≤ r)
    (hk : r < n + k) (cell : Cell) (hcell : cell.IsInert) : Counts s l n k c
      { w with heap := { w.heap with cells := w.heap.cells.setIfInBounds r cell } } where
  plain := by
    obtain ⟨w', hcw, htwin⟩ := h.plain
    refine ⟨{ w' with heap := { w'.heap with cells := w'.heap.cells.setIfInBounds r cell } },
      ⟨hcw.heap.setBeside rfl (Renaming.shifted_apart ⟨hn, hk⟩) cell, hcw.boundary⟩, ?_⟩
    exact ⟨htwin.heap.set r (.inert hcell), htwin.boundary, htwin.notices⟩
  named := h.named

/-- Where the list of a loop is: among the cells of both worlds, or among those the second has more,
and then its items are settled. -/
inductive Lists (n k r items : Nat) (w : World) : (Heap → Array Value) → Prop
  | shared (hn : items < n) : Lists n k r items w fun h => h.listItems items
  | settled {vs : Array Value} (hvs : vs.map (Renaming.past n k).value = vs) (hn : n ≤ items)
      (hr : items < r) (hc : w.heap.cells[items]? = some (.list vs)) :
      Lists n k r items w fun _ => vs

/-- A loop that counts its passes has been asked for `i` items of its list. The loop and its
iterator are among the cells that the second world has more. -/
structure Running (s : Scope) (l : LoopScope) (n k r items : Nat) (pick : Heap → Array Value)
    (i : Nat) (c w : World) : Prop where
  counts : Counts s l n k c w
  counting : s.Counting c.heap.frames
  list : Lists n k r items w pick
  loop : ∃ st : LoopState, st.items = items ∧ w.heap.cells[r]? = some (.loop st)
  iterator : w.heap.cells[r + 1]? = some (.iterator (.loop r i))

section Running

variable {l : LoopScope} {r items : Nat} {pick : Heap → Array Value} {i : Nat}
  (hn : n ≤ r) (hk : r + 1 < n + k)

theorem Running.listItems (h : Running s l n k r items pick i c w) :
    w.heap.listItems items = (pick c.heap).map (Renaming.past n k).value := by
  cases h.list with
  | shared hitems =>
    obtain ⟨w', hcw, htwin⟩ := h.counts.plain
    have hlist := hcw.heap.listItems items
    rw [congrFun htwin.heap.looksLike.listItems items, ← hlist]
    exact congrArg w'.heap.listItems (Renaming.shifted_of_lt k hitems).symm
  | settled hvs _ _ hc => rw [Heap.listItems_of_cell hc, hvs]

theorem Lists.mono {w' : World} (h : Lists n k r items w pick)
    (hlist : ∀ vs, n ≤ items → items < r → w.heap.cells[items]? = some (.list vs) →
      w'.heap.cells[items]? = some (.list vs)) : Lists n k r items w' pick := by
  cases h with
  | shared hitems => exact .shared hitems
  | settled hvs hn hr hc => exact .settled hvs hn hr (hlist _ hn hr hc)

include hn hk

/-- Its iterator delivers the items of the list as it is now. -/
theorem Running.next (reach : Reach) (hev : reach.ev = Evaluator.standard)
    (h : Running s l n k r items pick i c w) {item : Option Value}
    (hitem : (w.heap.listItems items)[i]? = item) :
    ∃ w₁, (reach.evaluate (reach.ev.next (.iterator .generator (r + 1)))).run w = .ok item w₁ ∧
      (item.isSome → Running s l n k r items pick (i + 1) c w₁) := by
  obtain ⟨st, hst, hloop⟩ := h.loop
  rw [← hst] at hitem
  cases item with
  | none =>
    rw [hev]
    exact ⟨_, evaluate_ok (next_own_end hloop h.iterator hitem _), nofun⟩
  | some v =>
    refine ⟨{ w with heap := w.heap.passed r st i }, evaluate_ok ?_, fun _ => ?_⟩
    · rw [hev]
      exact next_own_item hloop h.iterator hitem _
    · have hcells := passed_cells hloop i h.iterator
      refine ⟨?_, h.counting, h.list.mono fun vs _ hr hc => ?_,
        ⟨{ st with index := i }, hst, ?_⟩, ?_⟩
      · exact (h.counts.write hn (Nat.lt_of_succ_lt hk) (.loop { st with index := i })
          trivial).write (Nat.le_succ_of_le hn) hk (.iterator (.loop r (i + 1))) trivial
      · rw [hcells, if_neg (Nat.ne_of_gt (Nat.lt_succ_of_lt hr)), if_neg (Nat.ne_of_gt hr), hc]
      · rw [hcells, if_neg (Nat.succ_ne_self r), if_pos rfl]
      · rw [hcells, if_pos rfl]

theorem Running.pass (hsections : Sections.From (fun _ => True) e.sections)
    (henv : (Renaming.past n k).Fixes env) (hlocals : s.locals = [])
    (houter : ∀ l ∈ s.loops, l.position ≠ p) (hbody : Node.mention "loop" body = false)
    (h : Running s (askedScope p target body q) n k r items pick i c w) (v : Value) :
    Accord id (Running s (askedScope p target body q) n k r items pick i)
      ((itemPass (e.reach env Evaluator.standard m) s p target body v).run c)
      ((itemPass (e.reach env Evaluator.standard m) s p target (body ++ [.ifLoop q])
        ((Renaming.past n k).value v)).run w) := by
  refine (pass_counts hsections henv hlocals houter h.counting hbody h.counts v).imp
    fun _ c₁ w₁ _ _ ⟨hcounts, hkept, hgrows⟩ => ?_
  obtain ⟨st, hst, hloop⟩ := h.loop
  exact ⟨hcounts, h.counting.mono hgrows,
    h.list.mono fun vs hitems hr hc => hkept _ _ hitems (by omega) trivial hc,
    ⟨st, hst, hkept _ _ hn (by omega) trivial hloop⟩,
    hkept _ _ (by omega) hk trivial h.iterator⟩

/-- So it makes its passes for the items that are picked. -/
theorem counted_accords (hsections : Sections.From (fun _ => True) e.sections)
    (henv : (Renaming.past n k).Fixes env) (hlocals : s.locals = [])
    (houter : ∀ l ∈ s.loops, l.position ≠ p) (hbody : Node.mention "loop" body = false)
    (h : Running s (askedScope p target body q) n k r items pick 0 c w) (fuel : Nat) :
    Accord (Prod.map id (List.map (Renaming.past n k).value)) (fun _ _ => True)
      ((eachPicked pick (itemPass (e.reach env Evaluator.standard m) s p target body) fuel
        (#[], [])).run c)
      ((eachTaken (e.reach env Evaluator.standard m) (.iterator .generator (r + 1))
        (itemPass (e.reach env Evaluator.standard m) s p target (body ++ [.ifLoop q])) fuel
        (#[], [])).run w) := by
  refine eachTaken_accords (S := Running s (askedScope p target body q) n k r items pick)
    (fun i c w h => ?_) fuel _ h
  have hitem : (w.heap.listItems items)[i]? =
      (pick c.heap)[i]?.map (Renaming.past n k).value := by
    rw [h.listItems, Array.getElem?_map]
  obtain ⟨w₁, hi, hrunning⟩ := h.next hn hk (e.reach env Evaluator.standard m) rfl hitem
  generalize (pick c.heap)[i]? = item at hi hrunning
  cases item with
  | none => exact .ended hi
  | some v =>
    exact .passed hi ((hrunning rfl).pass hn hk hsections henv hlocals houter hbody v)

end Running

section Start

variable {l : LoopScope} {h : Heap} (more : Array Cell)

theorem counts_start (hs : c.heap.IsSound)
    (hquiet : c.heap.Twin (.muted True s.frame l.position) c.heap)
    (hmore : ∀ cell ∈ more, cell.IsInert) (r : Ref) :
    Counts s l c.heap.cells.size more.size c
      { c with heap := ({ c.heap with cells := c.heap.cells ++ more } : Heap).named s l r } where
  plain := by
    let h' : Heap := { c.heap with cells := c.heap.cells ++ more }
    have hframe : s.frame < c.heap.frames.size := hquiet.frames.1
    have hfilled : h'.Twin (.muted True s.frame l.position) h' := by
      refine ⟨rfl, fun r cell cell' hr hr' => ?_, hquiet.frames, rfl⟩
      cases hr.symm.trans hr'
      rw [Array.getElem?_append] at hr
      split at hr
      · exact hquiet.cells r _ _ hr hr
      · exact .inert (hmore _ (Array.mem_of_getElem? hr))
    refine ⟨{ c with heap := h' }, ⟨Renaming.past_carries hs more, ?_⟩, ?_, rfl, rfl⟩
    · dsimp only
      cases c.boundary with
      | none => exact .none
      | some b => exact .some (.refl b)
    · unfold Heap.named
      split
      · refine hfilled.reframe (grows_bind _ _ _ _) ⟨?_, ?_, fun r x hx => ?_⟩
        · rw [Array.size_modify]
          exact hframe
        · exact Array.size_modify.symm
        · rw [Renaming.get?_modify, if_neg fun h => hx ⟨trivial, h.1.1.symm, h.2⟩]
      · exact hfilled
  named hcounted := by
    have hframe : s.frame < c.heap.frames.size := hquiet.frames.1
    unfold Heap.named
    rw [if_pos hcounted]
    exact (assigned_bind _ _ _ _ _ _).mpr (.inl ⟨rfl, rfl, hframe⟩)

theorem running_start (hs : c.heap.IsSound)
    (hquiet : c.heap.Twin (.muted True s.frame l.position) c.heap)
    (hcounting : s.Counting c.heap.frames) (hmore : ∀ cell ∈ more, cell.IsInert) {items : Nat}
    {pick : Heap → Array Value}
    (hh : h = { c.heap with cells := c.heap.cells ++ more })
    (hlist : Lists c.heap.cells.size (more.size + 2) h.cells.size items { c with heap := h } pick) :
    Running s l c.heap.cells.size (more.size + 2) h.cells.size items pick 0 c
      { c with heap := (h.withLoop s items).named s l h.cells.size } where
  counts := by
    let made : Array Cell := (more.push (.loop ⟨items, (h.listItems items).size, 0,
      h.parentOf s⟩)).push (.iterator (.loop h.cells.size 0))
    have hwith : h.withLoop s items = { c.heap with cells := c.heap.cells ++ made } := by
      subst hh
      unfold Heap.withLoop
      rw [Array.push_append, Array.push_append]
    have hinert : ∀ cell ∈ made, cell.IsInert := by
      intro cell hcell
      rcases Array.mem_push.mp hcell with hcell | rfl
      · rcases Array.mem_push.mp hcell with hcell | rfl
        · exact hmore cell hcell
        · trivial
      · trivial
    have hsize : made.size = more.size + 2 := by
      rw [Array.size_push, Array.size_push]
    rw [hwith, ← hsize]
    exact counts_start made hs hquiet hinert _
  counting := hcounting
  list := hlist.mono fun vs _ hr hc => by
    dsimp only at hc ⊢
    rw [named_cells, withLoop_cells, if_neg (Nat.ne_of_lt (Nat.lt_succ_of_lt hr)),
      if_neg (Nat.ne_of_lt hr), hc]
  loop := ⟨_, rfl, made_loop h s l items⟩
  iterator := by
    dsimp only
    rw [named_cells, withLoop_cells, if_pos rfl]

/-- Such a loop runs over settled items, where these are collected in a list first. -/
theorem running_settled (hs : c.heap.IsSound)
    (hquiet : c.heap.Twin (.muted True s.frame l.position) c.heap)
    (hcounting : s.Counting c.heap.frames) (hmore : ∀ cell ∈ more, cell.IsInert)
    {items : Array Value}
    (hitems : items.map (Renaming.past c.heap.cells.size (more.size + 3)).value = items)
    (hh : h = { c.heap with cells := c.heap.cells ++ more }) {h' : Heap}
    (hh' : h' = { h with cells := h.cells.push (.list items) }) :
    Running s l c.heap.cells.size (more.size + 3) h'.cells.size h.cells.size (fun _ => items) 0 c
      { c with heap := (h'.withLoop s h.cells.size).named s l h'.cells.size } := by
  have hsize : (more.push (.list items)).size + 2 = more.size + 3 := by
    rw [Array.size_push]
  rw [← hsize] at hitems ⊢
  refine running_start _ hs hquiet hcounting (fun cell hcell => ?_) ?_ (.settled hitems ?_ ?_ ?_)
  · rcases Array.mem_push.mp hcell with hcell | rfl
    · exact hmore cell hcell
    · trivial
  · rw [hh', hh, Array.push_append]
  · rw [hh, Array.size_append]
    exact Nat.le_add_right _ _
  · rw [hh', Array.size_push]
    exact Nat.lt_succ_self _
  · rw [hh']
    exact Array.getElem?_push_size

end Start

end Render

end Stencil
