import Mathlib.Data.List.Nodup
import Stencil.Proofs.ReportedLine

/-!
# The boundary at every moment

From the boundary of its page a render hops to other boundaries: to a section that fills a place,
to a partial, to a layout. The hops that lead to a boundary determine how deep it is and what its
chain of layouts lists, and whatever is done in the boundary is done with these. When a hop is
over, however it ended, the boundary it began in is the present one again.
-/

namespace Stencil

open Render

namespace Hop

/-- The chain behind a hop, from the one before it. -/
def chain (before : List String) : Hop → List String
  | included name => [name]
  | filled _ => before
  | extended name => before ++ [name]

def isLevel : Hop → Bool
  | filled _ => false
  | included _ | extended _ => true

def isInclusion : Hop → Bool
  | included _ => true
  | filled _ | extended _ => false

def layout? : Hop → Option String
  | extended name => some name
  | filled _ | included _ => none

def levels (hops : List Hop) : Nat := hops.countP isLevel

/-- The layouts that the hops have gone on to. -/
def layouts (hops : List Hop) : List String := hops.filterMap layout?

/-- The chain that belongs to some hops from a page: the layouts extended since the last
inclusion behind the name included there, or since the page behind its own name. -/
inductive Lists (page : Option String) : List Hop → List String → Prop
  | sincePage {hops : List Hop} (h : ∀ hop ∈ hops, hop.isInclusion = false) :
      Lists page hops ((nonEmpty page).toList ++ layouts hops)
  | sinceInclusion {before after : List Hop} {name : String}
      (h : ∀ hop ∈ after, hop.isInclusion = false) :
      Lists page (before ++ included name :: after) (name :: layouts after)

theorem levels_concat (hops : List Hop) (hop : Hop) :
    levels (hops ++ [hop]) = levels hops + if hop.isLevel then 1 else 0 := by
  rw [levels, List.countP_append, List.countP_singleton, levels]

theorem layouts_concat (hops : List Hop) (hop : Hop) :
    layouts (hops ++ [hop]) = layouts hops ++ hop.layout?.toList := by
  rw [layouts, List.filterMap_append, layouts]
  cases hop <;> rfl

theorem Lists.concat {page : Option String} {hops : List Hop} {chain : List String}
    (h : Lists page hops chain) {hop : Hop} (hhop : hop.isInclusion = false) :
    Lists page (hops ++ [hop]) (chain ++ hop.layout?.toList) := by
  have hmore {hops : List Hop} (h : ∀ hop ∈ hops, hop.isInclusion = false) :
      ∀ hop' ∈ hops ++ [hop], hop'.isInclusion = false :=
    List.forall_mem_append.mpr ⟨h, List.forall_mem_singleton.mpr hhop⟩
  cases h with
  | sincePage h =>
    rw [List.append_assoc, ← layouts_concat]
    exact .sincePage (hmore h)
  | @sinceInclusion before after name h =>
    rw [List.cons_append, ← layouts_concat, List.append_assoc, List.cons_append]
    exact .sinceInclusion (hmore h)

theorem Lists.included {page : Option String} (hops : List Hop) (name : String) :
    Lists page (hops ++ [included name]) [name] :=
  .sinceInclusion (List.forall_mem_nil _)

end Hop

namespace Render

section Hopping

variable (env : Environment) (ev : Evaluator)

/-- Rendering `e` from `w`, where `n` more boundaries may be inside it, comes to a hop in a state;
the hop makes the entry `e'` and leaves the state `w'`. -/
inductive Entry.Enters (n : Nat) (e : Entry) (w : World) : Hop → World → Entry → World → Prop
  | filled {t : Template} {path : String} {ns : List Node} {frame : Ref} {w₁ : World} {m : Moment}
      {name fallback : String} {e' : Entry} {w' : World} (hp : e.part.body? = some (t, path, ns))
      (hf : ((e.reach env ev n).evaluate (Eval.newFrame [])).run
        { w with boundary := some e.boundary } = .ok frame w₁)
      (hm : Visits (e.reach env ev n) ⟨e.data, t.lenient, frame, [], [], path⟩ ns w₁ m)
      (hown : m.own = .place name fallback)
      (he : (sectionEntry e.data e.sections name).run m.world = .ok (some e') w') :
      e.Enters n w (.filled name) m.world e' w'
  | included {t : Template} {path : String} {ns : List Node} {frame : Ref} {w₁ w₂ : World}
      {m : Moment} {scope : Scope} {name : String} {given : Option Code} {v : Value} {e' : Entry}
      {w' : World} (hp : e.part.body? = some (t, path, ns))
      (hf : ((e.reach env ev n).evaluate (Eval.newFrame [])).run
        { w with boundary := some e.boundary } = .ok frame w₁)
      (hm : Visits (e.reach env ev n) ⟨e.data, t.lenient, frame, [], [], path⟩ ns w₁ m)
      (hown : m.own = .inclusion scope name given)
      (hv : (givenData (e.reach env ev n) scope given).run m.world = .ok v w₂)
      (he : (partialEntry env (env.host.calls n) name v).run w₂ = .ok e' w') :
      e.Enters n w (.included name) w₂ e' w'
  | extended {t : Template} {p : Text.Position} {name : String} {own : List Section} {e' : Entry}
      {w' : World} (hp : e.part = .whole t) (ht : t.tree = .extension p name own)
      (he : (layoutEntry env (env.host.calls n) e.data (e.sections.register t) name).run
        (World.marked { w with boundary := some e.boundary } p.line) = .ok e' w') :
      e.Enters n w (.extended name) (World.marked { w with boundary := some e.boundary } p.line)
        e' w'

/-- Rendering `top` from `w₀`, with at most `env.host.room` boundaries inside one another, comes
by hops to rendering an entry from a state, where so many may be inside one another. -/
inductive Reaches (top : Entry) (w₀ : World) : List Hop → Nat → Entry → World → Prop
  | start : Reaches top w₀ [] env.host.room top w₀
  | hop {hops : List Hop} {hop : Hop} {n : Nat} {e e' : Entry} {w w₁ w' : World}
      (h : Reaches top w₀ hops (n + 1) e w) (he : e.Enters env ev n w hop w₁ e' w') :
      Reaches top w₀ (hops ++ [hop]) n e' w'

variable {env ev} {n : Nat} {e e' : Entry} {w w₁ w' : World} {hop : Hop}

/-- What is entered by a hop is entered by an act, and the other way round. -/
theorem Entry.enters_iff_acts :
    (∃ hop w₁, e.Enters env ev n w hop w₁ e' w') ↔
      ∃ a, e.Acts env ev n w a ∧ a.action.run a.world = .ok (some e') w' := by
  constructor
  · rintro ⟨hop, w₁, h⟩
    cases h with
    | filled hp hf hm hown he =>
      refine ⟨_, .body hp hf hm, ?_⟩
      rw [hown]
      exact he
    | included hp hf hm hown hv he =>
      refine ⟨_, .body hp hf hm, ?_⟩
      rw [hown]
      exact (Action.bind_of_ok hv _).trans (Action.bind_of_ok he _)
    | extended hp ht he => exact ⟨_, .layout hp ht, Action.bind_of_ok he _⟩
  · rintro ⟨a, ha, h⟩
    cases ha with
    | @body t path ns frame w₁ m hp hf hm =>
      have hlocally : (m.own.locally env (e.reach env ev n) e.data e.sections).run m.world =
        .ok (some e') w' := h
      cases hown : m.own with
      | place name fallback =>
        rw [hown] at hlocally
        exact ⟨_, _, .filled hp hf hm hown hlocally⟩
      | inclusion scope name given =>
        rw [hown] at hlocally
        obtain ⟨v, w₂, hv, hlocally⟩ := Action.bind_ok hlocally
        obtain ⟨e₁, w₃, he, hlocally⟩ := Action.bind_ok hlocally
        cases hlocally
        exact ⟨_, _, .included hp hf hm hown hv he⟩
      | _ =>
        rw [hown] at hlocally
        obtain ⟨_, _, _, hlocally⟩ := Action.bind_ok hlocally
        cases hlocally
    | layout hp ht =>
      obtain ⟨e₁, w₁, he, h⟩ := Action.bind_ok h
      cases h
      exact ⟨_, _, .extended hp ht he⟩

/-- The boundary `b'` is what a hop makes in the boundary `b`. -/
structure Moves (b : Boundary) (hop : Hop) (b' : Boundary) : Prop where
  limit : b'.limit = b.limit
  depth : b'.depth = b.depth + if hop.isLevel then 1 else 0
  chain : b'.chain = hop.chain b.chain
  /-- A level is entered only if the limit allows it. -/
  allowed : hop.isLevel = true → b.depth < b.limit
  /-- A layout is extended only if it is not in the chain. -/
  fresh : ∀ name, hop.layout? = some name → name ∉ b.chain

/-- A hop begins in the boundary of its entry, at some line, and moves from there. -/
theorem Entry.Enters.moves (h : e.Enters env ev n w hop w₁ e' w') :
    ∃ line, w₁.boundary = some (e.boundary.atLine line) ∧
      Moves (e.boundary.atLine line) hop e'.boundary := by
  have hshows {a : Act} (ha : e.Acts env ev n w a) :
      ∃ line : Nat, a.world.boundary = some (e.boundary.atLine line) := by
    obtain ⟨line, -, hline⟩ := ha.shows
    exact ⟨line, hline⟩
  cases h with
  | filled hp hf hm hown he =>
    obtain ⟨line, hw⟩ := hshows (.body hp hf hm)
    obtain ⟨s, hs, rfl⟩ := sectionEntry_ok hw he
    exact ⟨line, hw, rfl, (Int.add_zero _).symm, rfl, nofun, nofun⟩
  | included hp hf hm hown hv he =>
    obtain ⟨line, hw⟩ := hshows (.body hp hf hm)
    have hw := (givenData_keeps _ _ _ _ _ hv).trans hw
    obtain ⟨hdepth, t, w₂, data, hload, rfl⟩ := partialEntry_ok hw he
    exact ⟨line, hw, rfl, rfl, rfl, fun _ => hdepth, nofun⟩
  | extended hp ht he =>
    obtain ⟨line, hw⟩ := hshows (.layout hp ht)
    obtain ⟨hcycle, hdepth, u, w₂, hload, rfl⟩ := layoutEntry_ok hw he
    refine ⟨line, hw, rfl, rfl, rfl, fun _ => hdepth, ?_⟩
    rintro _ ⟨⟩
    exact hcycle

/-- The boundary that belongs to some hops from the page `t`. -/
structure Fits (env : Environment) (t : Template) (hops : List Hop) (b : Boundary) : Prop where
  limit : b.limit = env.limit
  depth : b.depth = Hop.levels hops
  within : b.depth ≤ env.limit
  nodup : b.chain.Nodup
  chain : Hop.Lists t.name hops b.chain

variable {t : Template} {hops : List Hop} {b b' : Boundary}

theorem Fits.page (hlimit : 0 ≤ env.limit) (t : Template) (r : Ref) :
    Fits env t [] (t.entry env r).boundary where
  limit := rfl
  depth := rfl
  within := hlimit
  nodup := by
    change ((nonEmpty t.name).toList).Nodup
    cases nonEmpty t.name with
    | none => exact List.nodup_nil
    | some name => exact List.nodup_singleton name
  chain := by
    have hchain : Hop.Lists t.name [] ((nonEmpty t.name).toList ++ Hop.layouts []) :=
      .sincePage (List.forall_mem_nil _)
    rwa [Hop.layouts, List.filterMap_nil, List.append_nil] at hchain

theorem Fits.atLine (h : Fits env t hops b) (line : Int) : Fits env t hops (b.atLine line) :=
  ⟨h.limit, h.depth, h.within, h.nodup, h.chain⟩

theorem Fits.moved (h : Fits env t hops b) (hm : Moves b hop b') :
    Fits env t (hops ++ [hop]) b' where
  limit := hm.limit.trans h.limit
  depth := by
    rw [hm.depth, h.depth, Hop.levels_concat]
    split <;> simp
  within := by
    have hwithin := h.within
    have hlimit := h.limit
    rw [hm.depth]
    split
    · rename_i hlevel
      have hallowed := hm.allowed hlevel
      omega
    · omega
  nodup := by
    rw [hm.chain]
    cases hop with
    | filled name => exact h.nodup
    | included name => exact List.nodup_singleton name
    | extended name =>
      have hnew : name ∉ b.chain := hm.fresh name rfl
      exact h.nodup.append (List.nodup_singleton name) (List.disjoint_singleton.mpr hnew)
  chain := by
    rw [hm.chain]
    cases hop with
    | included name => exact .included hops name
    | filled name =>
      have hchain := @Hop.Lists.concat _ _ _ h.chain (.filled name) rfl
      rwa [Hop.layout?, Option.toList_none, List.append_nil] at hchain
    | extended name => exact h.chain.concat rfl

theorem Reaches.fits (hlimit : 0 ≤ env.limit) {r : Ref} {w₀ : World}
    (h : Reaches env ev (t.entry env r) w₀ hops n e w) : Fits env t hops e.boundary := by
  induction h with
  | start => exact .page hlimit t r
  | hop h he ih =>
    obtain ⟨line, -, hmoves⟩ := he.moves
    exact (ih.atLine line).moved hmoves

end Hopping

end Render

namespace Action

variable {α β : Type}

/-- The action ends in the boundary it began in, at the same line, however it ends. -/
structure ComesBack (x : Action α) : Prop where
  keeps : x.Keeps
  stopped : ∀ w s w', x.run w = .error s w' → w'.boundary = w.boundary

namespace ComesBack

theorem ofStays {P : Option Boundary → Stop → Prop} {x : Action α} (h : x.Stays P) :
    ComesBack x :=
  ⟨h.keeps, fun _ _ _ hrun => (h.raises hrun).1⟩

theorem ofLocal {x : Action α} (h : x.IsLocal) : ComesBack x := ofStays h

theorem bind {x : Action α} {f : α → Action β} (hx : ComesBack x) (hf : ∀ a, ComesBack (f a)) :
    ComesBack (x >>= f) where
  keeps := hx.keeps.bind fun a => (hf a).keeps
  stopped w s w' h := by
    rcases bind_error h with h | ⟨a, w₁, hrun, h⟩
    · exact hx.stopped w s w' h
    · exact ((hf a).stopped w₁ s w' h).trans (hx.keeps w a w₁ hrun)

theorem within (b : Boundary) (x : Action α) : ComesBack (Action.within b x) where
  keeps := .within b x
  stopped w s w' h := by
    change Action.within b x w = .error s w' at h
    unfold Action.within at h
    split at h
    · cases h
    · cases h
      rfl

end ComesBack

end Action

namespace Render

section Returning

variable (env : Environment) (again : Part → Ref → Sections → Action Output)

theorem Entry.render_comesBack (e : Entry) : (e.render again).ComesBack := .within _ _

theorem yieldTo_comesBack (data : Ref) (sections : Sections) (name fallback : String) :
    (yieldTo again data sections name fallback).ComesBack := by
  rw [yieldTo_eq]
  refine .bind (.ofLocal (sectionEntry_local data sections name)) fun entered => ?_
  cases entered with
  | none => exact .ofLocal (.pure _)
  | some e => exact e.render_comesBack again

theorem includePartial_comesBack (calls : Nat) (name : String) (v : Value) :
    (includePartial env calls again name v).ComesBack := by
  rw [includePartial_eq]
  exact .bind (.ofStays (partialEntry_stays env calls name v)) fun e => e.render_comesBack again

theorem extend_comesBack (calls : Nat) (name : String) (data : Ref) (sections : Sections) :
    (extend env calls again name data sections).ComesBack := by
  rw [extend_eq]
  exact .bind (.ofStays (layoutEntry_stays env calls data sections name)) fun e =>
    e.render_comesBack again

end Returning

end Render

theorem Template.renderData_local (env : Environment) (data : Value) (more : Bindings) :
    (Template.renderData env data more).IsLocal := by
  unfold Template.renderData
  split
  · exact .bind (.pure _) fun given => .pure _
  · exact .bind .heap fun heap => .bind (.pure _) fun given => .pure _
  · exact .bind (.fault _) fun given => .pure _

theorem Template.startData_comesBack (env : Environment) (data : Value) (more : Bindings) :
    (Template.startData env data more).ComesBack :=
  .bind (.ofLocal (Template.renderData_local env data more)) fun _ => .ofLocal (.evaluateUnder 0 _)

theorem Template.renderBy_comesBack (ev : Evaluator) (t : Template) (env : Environment)
    (data : Value) (more : Bindings) : (t.renderBy ev env data more).ComesBack := by
  rw [Template.renderBy_eq]
  exact .bind (Template.startData_comesBack env data more) fun r => .within _ _

theorem Environment.renderBy_comesBack (ev : Evaluator) (env : Environment) (name : String)
    (data : Value) (more : Bindings) : (env.renderBy ev name data more).ComesBack := by
  unfold Environment.renderBy
  exact .bind (.ofLocal (.loadUnder env 0 name)) fun t => t.renderBy_comesBack ev env data more

/-- Boundaries of a render of `t` are as the hops say that lead to them. -/
structure BoundariesAsHopsSay (env : Environment) (ev : Evaluator) (t : Template) : Prop where
  /-- The boundary of every entry is as deep as there are levels on the path of hops from the page,
  no deeper than the limit, and its chain lists, without repetition, the layouts extended since the
  last inclusion behind the name that was included, or since the page behind its name, if that is
  not empty. -/
  entered : ∀ r w₀ hops n e w, Reaches env ev (t.entry env r) w₀ hops n e w →
    Fits env t hops e.boundary
  /-- So is the boundary at every moment of the entry; what is done there itself does not leave
  the boundary, even if it fails. -/
  present : ∀ r w₀ hops n e w a, Reaches env ev (t.entry env r) w₀ hops (n + 1) e w →
    e.Acts env ev n w a →
      (∃ b, a.world.boundary = some b ∧ Fits env t hops b) ∧ a.action.ComesBack
  /-- A section body has the depth and the chain of the place that it fills. -/
  filled : ∀ n (e : Entry) w name (w₁ : World) (e' : Entry) w',
    e.Enters env ev n w (.filled name) w₁ e' w' →
      ∃ b, w₁.boundary = some b ∧ e'.boundary.depth = b.depth ∧ e'.boundary.chain = b.chain
  /-- However a hop ends, the boundary it began in is the present one again. -/
  hop : ∀ again calls data sections name fallback v,
    (yieldTo again data sections name fallback).ComesBack ∧
      (includePartial env calls again name v).ComesBack ∧
      (extend env calls again name data sections).ComesBack
  body : ∀ again (e : Entry), (e.render again).ComesBack
  /-- So it is when the whole render ends; where there was none, there is none. -/
  render : ∀ data more, (t.renderBy ev env data more).ComesBack
  none_after : ∀ data more w, w.boundary = none →
    (∀ out w', (t.renderBy ev env data more).run w = .ok out w' → w'.boundary = none) ∧
      ∀ s w', (t.renderBy ev env data more).run w = .error s w' → w'.boundary = none

/-- The invariant of boundaries holds of every render, whatever is rendered and with what data. -/
theorem boundaries_as_hops_say {env : Environment} (hlimit : 0 ≤ env.limit) (ev : Evaluator)
    (t : Template) : BoundariesAsHopsSay env ev t where
  entered r w₀ hops n e w h := h.fits hlimit
  present r w₀ hops n e w a h ha := by
    obtain ⟨line, -, hline⟩ := ha.shows
    exact ⟨⟨_, hline, (h.fits hlimit).atLine line⟩, .ofStays ha.stays⟩
  filled n e w name w₁ e' w' h := by
    obtain ⟨line, hw, hmoves⟩ := h.moves
    have hdepth := hmoves.depth
    exact ⟨_, hw, hdepth.trans (Int.add_zero _), hmoves.chain⟩
  hop again calls data sections name fallback v :=
    ⟨yieldTo_comesBack again data sections name fallback,
      includePartial_comesBack env again calls name v,
      extend_comesBack env again calls name data sections⟩
  body again e := e.render_comesBack again
  render data more := t.renderBy_comesBack ev env data more
  none_after data more w hw := by
    have hback := t.renderBy_comesBack ev env data more
    exact ⟨fun out w' h => (hback.keeps w out w' h).trans hw,
      fun s w' h => (hback.stopped w s w' h).trans hw⟩

/-- The partial that a page begins with, if the page begins with one that is given nothing. -/
def Tree.firstPartial? : Tree → Option String
  | .page (.including _ name none :: _) => some name
  | _ => none

/-- A page that begins with a partial reaches it by one hop. -/
theorem reaches_partial {env : Environment} (ev : Evaluator) {page u : Template} {name : String}
    (hpage : page.tree.firstPartial? = some name) (hload : env.Gives name (.ok u))
    (hlimit : 0 < env.limit) (r : Ref) (w : World) :
    ∃ n e w', Reaches env ev (page.entry env r) w [.included name] n e w' ∧
      e.boundary.chain = [name] := by
  have htree : ∃ p ns, page.tree = .page (.including p name none :: ns) := by
    unfold Tree.firstPartial? at hpage
    split at hpage
    · rename_i p name' ns htree
      cases hpage
      exact ⟨p, ns, htree⟩
    · cases hpage
  obtain ⟨p, ns, htree⟩ := htree
  let e := page.entry env r
  let n := env.host.nested
  have hbody : e.part.body? = some (page, "render", .including p name none :: ns) := by
    change Part.body? (.whole page) = _
    rw [Part.body?, htree]
  have hframe : ∃ frame w₁, ((e.reach env ev n).evaluate (Eval.newFrame [])).run
      { w with boundary := some e.boundary } = .ok frame w₁ := ⟨_, _, rfl⟩
  obtain ⟨frame, w₁, hframe⟩ := hframe
  have hdata : ∃ d w₂, (givenData (e.reach env ev n) ⟨r, page.lenient, frame, [], [], "render"⟩
      none).run (w₁.marked p.line) = .ok (.dict d) w₂ ∧
        w₂.boundary = some (e.boundary.atLine p.line) := by
    refine ⟨_, _, rfl, ?_⟩
    rw [Action.evaluateUnder_ok hframe]
    rfl
  obtain ⟨d, w₂, hdata, hw₂⟩ := hdata
  have hdepth : (e.boundary.atLine p.line).checkDepth name = .ok () := checkDepth_ok.mpr hlimit
  obtain ⟨notices, hload⟩ := hload (env.host.calls n) w₂
  have hentry : ∃ e' w', (partialEntry env (env.host.calls n) name (.dict d)).run w₂ = .ok e' w' := by
    unfold partialEntry
    rw [Action.run_here_bind hw₂, hdepth]
    exact ⟨_, _, Action.bind_of_ok hload _⟩
  obtain ⟨e', w', hentry⟩ := hentry
  have henters : e.Enters env ev n w (.included name) w₂ e' w' :=
    .included hbody hframe (.head .inclusion) rfl hdata hentry
  obtain ⟨line, -, hmoves⟩ := henters.moves
  exact ⟨n, e', w', .hop .start henters, hmoves.chain⟩

/-- A page with a partial that extends a layout. -/
def framedPages : Environment := .ofTable
  [("page", "@include('note')"), ("note", "@extends('frame')"), ("frame", "x")]

theorem framed_boundaries_as_hops_say :
    ∃ page, (framedPages.load "page").value? .fresh = some page ∧ 0 ≤ framedPages.limit ∧
      (∃ n e w, Reaches framedPages Evaluator.standard (page.entry framedPages 0) .fresh
        [.included "note"] n e w) ∧
      BoundariesAsHopsSay framedPages Evaluator.standard page := by
  obtain ⟨content, hc⟩ : ∃ content, framedPages.Holds content := Environment.ofTable_holds _
  have hpage : ((framedPages.load "page").value? .fresh).any (fun t =>
      t.tree.firstPartial? = some "note") = true := by decide +kernel
  have hnote : ((framedPages.load "note").value? .fresh).isSome = true := by decide +kernel
  obtain ⟨page, hpageLoads, hpage⟩ := (Option.any_eq_true ..).mp hpage
  obtain ⟨note, hnote⟩ := Option.isSome_iff_exists.mp hnote
  have hgives : framedPages.Gives "note" (.ok note) :=
    hc.content_of_value? hnote ▸ hc.gives "note"
  obtain ⟨n, e, w, hreaches, -⟩ := reaches_partial Evaluator.standard
    (of_decide_eq_true hpage) hgives (by decide) 0 .fresh
  have hlimit : 0 ≤ framedPages.limit := by decide
  exact ⟨page, hpageLoads, hlimit, ⟨n, e, w, hreaches⟩, boundaries_as_hops_say hlimit _ page⟩

/-- A page with a partial whose name is empty; it extends the layout of that name, which is
itself. -/
def namelessPages : Environment := .ofTable [("page", "@include('')"), ("", "@extends('')")]

/-- An empty name is listed, too, unless it is that of the page. So the partial comes back to a
member of the chain, and its render ends with that, not at the limit. -/
theorem nameless_partial_listed :
    ∃ page, (namelessPages.load "page").value? .fresh = some page ∧
      (¬ ∀ hops n e w, Reaches namelessPages Evaluator.standard (page.entry namelessPages 0) .fresh
        hops n e w → ∀ name ∈ e.boundary.chain, name ≠ "") ∧
      (namelessPages.render "page" .none []).stop? .fresh =
        some (.failed (.template (.cycle ["", ""]))) := by
  obtain ⟨content, hc⟩ : ∃ content, namelessPages.Holds content := Environment.ofTable_holds _
  have hpage : ((namelessPages.load "page").value? .fresh).any (fun t =>
      t.tree.firstPartial? = some "") = true := by decide +kernel
  have hpartial : ((namelessPages.load "").value? .fresh).isSome = true := by decide +kernel
  obtain ⟨page, hpageLoads, hpage⟩ := (Option.any_eq_true ..).mp hpage
  obtain ⟨u, hpartial⟩ := Option.isSome_iff_exists.mp hpartial
  have hgives : namelessPages.Gives "" (.ok u) := hc.content_of_value? hpartial ▸ hc.gives ""
  obtain ⟨n, e, w, hreaches, hchain⟩ := reaches_partial Evaluator.standard
    (of_decide_eq_true hpage) hgives (by decide) 0 .fresh
  refine ⟨page, hpageLoads, fun hall => ?_, by decide +kernel⟩
  have hmem : "" ∈ e.boundary.chain := hchain ▸ List.mem_singleton_self ""
  exact hall _ n e w hreaches "" hmem rfl

end Stencil
