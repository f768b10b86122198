import Stencil.Proofs.Layouts
import Stencil.Proofs.Nesting

/-!
# Sections of a chain

The sections that a base yields to are settled by the sources of the chain alone: of the
templates that define a name the one furthest from the base, and in it the last definition.
A page with layouts renders what its base renders with these sections put in place.
-/

namespace Stencil

namespace Source

/-- The top-level content of a source. -/
def items (s : Source) : List Tree.Item :=
  match s.tokens with
  | .error _ => []
  | .ok tokens =>
    match tokens.foldlM Tree.Reading.step Tree.Reading.empty with
    | .error _ => []
    | .ok r => r.items.reverse

end Source

namespace Tree

def definitions (name : String) (items : List Item) : List Section :=
  items.filterMap fun
    | .section s => if s.name = name then some s else none
    | .node _ => none

theorem find?_define (name : String) (s : Section) (l : List Section) :
    (define s l).find? (·.name = name) =
      if s.name = name then some s else l.find? (·.name = name) := by
  induction l with
  | nil => by_cases h : s.name = name <;> simp [define, h]
  | cons t ts ih =>
    unfold define
    by_cases hst : t.name = s.name
    · rw [if_pos hst]
      by_cases h : s.name = name <;> simp [hst, h]
    · rw [if_neg hst]
      by_cases ht : t.name = name
      · have h : s.name ≠ name := fun h => hst (ht.trans h.symm)
        simp [ht, h]
      · simp [ht, ih]

theorem find?_foldl_defineItem (name : String) (items : List Item) (l : List Section) :
    (items.foldl defineItem l).find? (·.name = name) =
      (definitions name items).getLast?.or (l.find? (·.name = name)) := by
  induction items generalizing l with
  | nil => simp [definitions]
  | cons item items ih =>
    rw [List.foldl_cons, ih]
    cases item with
    | node n => rfl
    | «section» s =>
      unfold defineItem
      rw [find?_define]
      by_cases h : s.name = name
      · simp [definitions, h, List.getLast?_cons]
      · simp [definitions, h]

theorem find?_sectionsOf (name : String) (items : List Item) :
    (sectionsOf items).find? (·.name = name) = (definitions name items).getLast? := by
  unfold sectionsOf
  rw [find?_foldl_defineItem]
  simp

end Tree

namespace Template

def definition? (t : Template) (name : String) : Option Section :=
  (Tree.definitions name t.source.items).getLast?

def bound? (t : Template) (name : String) : Option BoundSection :=
  (t.definition? name).map fun s => ⟨t, t.tree.sections.findIdx (·.name = name), s.body⟩

theorem sections_find? {t : Template} (hread : t.IsRead) {position : Text.Position}
    {layout : String} {own : List Section} (ht : t.tree = .extension position layout own)
    (name : String) : own.find? (·.name = name) = t.definition? name := by
  obtain ⟨tokens, r, orphans, htokens, hrun, hassemble⟩ := hread.reading
  have hitems : t.source.items = r.items.reverse := by
    unfold Source.items
    rw [htokens]
    simp only [hrun]
  unfold definition?
  rw [hitems]
  unfold Tree.assemble at hassemble
  split at hassemble
  · simp only [Except.ok.injEq, Prod.mk.injEq, ht, Tree.extension.injEq] at hassemble
    rw [← hassemble.1.2.2]
    exact Tree.find?_sectionsOf name r.items.reverse
  · split at hassemble
    · cases hassemble
    · simp [ht] at hassemble

end Template

namespace Sections

theorem find?_zipIdx (p : Section → Bool) (l : List Section) (k : Nat) :
    (l.zipIdx k).find? (fun x => p x.1) = (l.find? p).map fun s => (s, k + l.findIdx p) := by
  induction l generalizing k with
  | nil => rfl
  | cons s l ih =>
    rw [List.zipIdx_cons, List.find?_cons, List.find?_cons, List.findIdx_cons]
    cases hp : p s with
    | true => simp
    | false =>
      rw [ih]
      simp [Nat.add_left_comm, Nat.add_comm]

theorem lookup_put (t : Template) (s : Sections) (x : Section × Nat) (name : String) :
    (put t s x).lookup name =
      (s.lookup name).or (if x.1.name = name then some ⟨t, x.2, x.1.body⟩ else none) := by
  unfold put
  by_cases hname : x.1.name = name
  · rw [hname, if_pos rfl]
    cases hs : s.lookup name with
    | some b => simp [hs]
    | none => simp [hs, List.lookup_append]
  · have hbeq : (name == x.1.name) = false := by simpa using Ne.symm hname
    rw [if_neg hname, Option.or_none]
    split
    · rfl
    · simp [List.lookup_append, List.lookup_cons, hbeq]

theorem lookup_foldl_put (t : Template) (name : String) (l : List (Section × Nat))
    (s : Sections) :
    (l.foldl (put t) s).lookup name =
      (s.lookup name).or ((l.find? (·.1.name = name)).map fun x => ⟨t, x.2, x.1.body⟩) := by
  induction l generalizing s with
  | nil => simp
  | cons x l ih =>
    rw [List.foldl_cons, ih, lookup_put, Option.or_assoc, List.find?_cons]
    by_cases hname : x.1.name = name <;> simp [hname]

/-- Registering adds what a template defines behind what is defined already. -/
theorem lookup_register {t : Template} (hread : t.IsRead) {layout : String}
    (ht : t.tree.layout? = some layout) (s : Sections) (name : String) :
    (s.register t).lookup name = (s.lookup name).or (t.bound? name) := by
  cases htree : t.tree with
  | page ns =>
    rw [htree] at ht
    cases ht
  | extension position layout own =>
    unfold register Template.bound?
    rw [lookup_foldl_put, ← Template.sections_find? hread htree, htree]
    have hfind := find?_zipIdx (fun s => decide (s.name = name)) own 0
    simp only [Nat.zero_add] at hfind
    simp only [Tree.sections]
    rw [hfind, Option.map_map]
    rfl

end Sections

/-- A chain of layouts from `t` to the base `u`; the list is the chain without the base. -/
inductive Chain (env : Environment) : Template → List Template → Template → Prop
  | base {t : Template} {ns : List Node} (ht : t.tree = .page ns) : Chain env t [] t
  | layout {t t' u : Template} {ts : List Template} {name : String}
      (hlayout : t.tree.layout? = some name) (hload : env.Gives name (.ok t'))
      (rest : Chain env t' ts u) : Chain env t (t :: ts) u

/-- The section that stands for a name in a chain: of the first template that defines it. -/
def resolved? (chain : List Template) (name : String) : Option BoundSection :=
  chain.findSome? (·.bound? name)

theorem Chain.lookup_sections {env : Environment} {t u : Template} {ts : List Template}
    (h : Chain env t ts u) (hread : t.IsRead) (s : Sections) (name : String) :
    (ts.foldl Sections.register s).lookup name = (s.lookup name).or (resolved? ts name) := by
  induction h generalizing s with
  | base ht => simp [resolved?]
  | @layout t t' u ts layout hlayout hload rest ih =>
    rw [List.foldl_cons, ih hload.read.2, Sections.lookup_register hread hlayout, Option.or_assoc]
    congr 1
    unfold resolved?
    rw [List.findSome?_cons]
    cases t.bound? name <;> rfl

/-- Section bodies that differ at most in where faults inside them are reported. -/
structure BoundSection.Agrees (s s' : BoundSection) : Prop where
  body : s.body = s'.body
  index : s.index = s'.index
  lenient : s.owner.lenient = s'.owner.lenient

namespace Render

variable (env : Environment) (ev : Evaluator) (find : String → Option BoundSection) (data : Ref)

/-- A place filled by the section that `find` knows. -/
def fill (again : BoundSection → Action Output) (name fallback : String) : Action Output := do
  match find name with
  | none => return #[.fallback fallback]
  | some s =>
    let here ← Action.here
    Action.within (here.ofSection s.owner.name s.owner.filename (some s.owner.source.text))
      (again s)

def aroundFilled (n : Nat) (again : BoundSection → Action Output) : Reach :=
  ⟨ev, env.host.calls n, fill find again, includePartial env (env.host.calls n) (part env ev n)⟩

/-- A section body, with all places in it filled by what `find` knows. -/
def filledSection : Nat → BoundSection → Action Output
  | 0, _ => Action.fault .tooRecursive
  | n + 1, s =>
    body (aroundFilled env ev find n (filledSection n)) s.owner
      ("_section_" ++ toString s.index) data s.body

end Render

/-- Renders the body of a template with all places in it filled by what `find` knows. -/
def Template.renderFilled (ev : Evaluator) (t : Template) (env : Environment)
    (find : String → Option BoundSection) (data : Value) (more : Bindings) : Action Output := do
  let d ← renderData env data more
  let r ← Action.evaluate (Eval.newData d)
  let n := env.host.room - 1
  Action.within (.page t.name t.filename (some t.source.text) env.limit)
    (Render.body (Render.aroundFilled env ev find n (Render.filledSection env ev find r n)) t
      "render" r t.tree.nodes)

namespace Render

open Boundary (Deeper)

variable (env : Environment) (ev : Evaluator) {find : String → Option BoundSection} (data : Ref)
  {sections : Sections} {limit : Int}

theorem yieldTo_fill (hfind : ∀ name, Option.Rel BoundSection.Agrees (sections.lookup name)
      (find name))
    {again : Part → Ref → Sections → Action Output} {again' : BoundSection → Action Output}
    (ha : ∀ s s' : BoundSection, s.Agrees s' →
      Parallel (.both (Deeper limit)) (again (.sectionBody s) data sections) (again' s'))
    (name fallback : String) :
    Parallel (.both (Deeper limit)) (yieldTo again data sections name fallback)
      (fill find again' name fallback) := by
  unfold yieldTo fill
  have hname := hfind name
  generalize sections.lookup name = s, find name = s' at hname
  cases hname with
  | none => exact Parallel.pure _
  | some hs =>
    refine Parallel.here fun b b' hb => Parallel.within ?_ (ha _ _ hs)
    exact ⟨_, _, rfl, rfl, ⟨hb.nonneg, hb.depth, hb.limit_eq, hb.limit_eq'⟩⟩

theorem around_filled {m n : Nat} (hnm : n ≤ m)
    (hfind : ∀ name, Option.Rel BoundSection.Agrees (sections.lookup name) (find name))
    (ih : ∀ s s' : BoundSection, s.Agrees s' → Parallel (.both (Deeper limit))
      (part env ev n (.sectionBody s) data sections) (filledSection env ev find data m s')) :
    Alongside (.both (Deeper limit)) (around env ev (env.host.calls n) (part env ev n) data sections)
      (aroundFilled env ev find m (filledSection env ev find data m)) :=
  ⟨rfl, env.host.calls_le hnm, yieldTo_fill data hfind ih,
    includePartial_parallel (fun _ _ h => h) env (env.host.calls_le hnm)
      fun t data => (part_parallel env ev limit n m hnm).2 t data []⟩

theorem body_lenient {t t' : Template} (h : t.lenient = t'.lenient) (reach : Reach)
    (path : String) (data : Ref) (ns : List Node) :
    body reach t path data ns = body reach t' path data ns := by
  unfold body
  rw [h]

theorem section_filled
    (hfind : ∀ name, Option.Rel BoundSection.Agrees (sections.lookup name) (find name))
    (n : Nat) : ∀ m, n ≤ m → ∀ s s' : BoundSection, s.Agrees s' →
      Parallel (.both (Deeper limit)) (part env ev n (.sectionBody s) data sections)
        (filledSection env ev find data m s') := by
  induction n with
  | zero => exact fun _ _ _ _ _ _ _ _ => .limit rfl
  | succ n ih =>
    intro m hm s s' hs
    obtain ⟨m, rfl⟩ : ∃ k, m = k + 1 := ⟨m - 1, by omega⟩
    have hnm : n ≤ m := by omega
    unfold part filledSection
    rw [body_lenient hs.lenient, hs.body, hs.index]
    exact Parallel.body Boundary.deeper_keepsLines
      (around_filled env ev data hnm hfind (ih m hnm)) _ _ _ _

/-- A chain that renders well comes down to its base with the sections of the chain. -/
theorem chain_base {t u : Template} {ts : List Template} (h : Chain env t ts u) {out : Output}
    {w₁ : World} : ∀ (n : Nat) (b : Boundary) (s : Sections) (w : World),
      b.limit = env.limit → 0 ≤ b.depth →
      (Action.within b (part env ev n (.whole t) data s)).run w = .ok out w₁ →
      ∃ k b' notices, k < n ∧ b'.limit = env.limit ∧ 0 ≤ b'.depth ∧
        (Action.within b' (body (around env ev (env.host.calls k) (part env ev k) data
          (ts.foldl Sections.register s)) u "render" data u.tree.nodes)).run { w with notices } =
            .ok out w₁ := by
  induction h with
  | @base t ns ht =>
    intro n b s w hlimit hdepth hrun
    cases n with
    | zero => cases hrun
    | succ n =>
      rw [part_page env ev n ht] at hrun
      refine ⟨n, b, w.notices, Nat.lt_succ_self n, hlimit, hdepth, ?_⟩
      rw [ht]
      exact hrun
  | @layout t t' u ts layout hlayout hload rest ih =>
    intro n b s w hlimit hdepth hrun
    cases ht : t.tree with
    | page ns =>
      rw [ht] at hlayout
      cases hlayout
    | extension position layout' own =>
      have hsame : layout' = layout := by
        rw [ht] at hlayout
        exact Option.some.inj hlayout
      subst hsame
      cases n with
      | zero => cases hrun
      | succ n =>
        by_cases hc : layout' ∈ b.chain
        · rw [hop_cycle env ev data s w ht hc] at hrun
          cases hrun
        by_cases hd : b.depth < b.limit
        · obtain ⟨notices, hloaded⟩ := hop_loaded env (n := n) w ht hc hd hload
          rw [hloaded] at hrun
          have hdepth' : 0 ≤ (Boundary.child (b.atLine position.line) layout' t'.filename
              (some t'.source.text) true).depth := Int.add_nonneg hdepth (by decide)
          obtain ⟨k, b', notices', hk, hlimit', hdepth', hbase⟩ := ih n
            ((b.atLine position.line).child layout' t'.filename (some t'.source.text) true)
            (s.register t) { w with notices } hlimit hdepth' (Action.ok_of_within hrun)
          exact ⟨k, b', notices', by omega, hlimit', hdepth', hbase⟩
        · rw [hop_tooDeep env ev data s w ht hc (by omega)] at hrun
          cases hrun

end Render

/-- If a page renders well, it renders what the base of its chain renders with every place
filled by the body of the section that stands for its name, and by its fallback where there is
none. Nothing else of the templates before the base matters. -/
theorem chain_renders_filled_base (env : Environment) (ev : Evaluator) {t u : Template}
    {ts : List Template} (hread : t.IsRead) (hchain : Chain env t ts u) {data : Value}
    {more : Bindings} {w w₁ : World} {out : Output}
    (hrun : (t.renderBy ev env data more).run w = .ok out w₁)
    {find : String → Option BoundSection}
    (hfind : ∀ name, Option.Rel BoundSection.Agrees (resolved? ts name) (find name)) :
    ∃ w₂, (u.renderFilled ev env find data more).run w = .ok out w₂ ∧ w₂.heap = w₁.heap := by
  obtain ⟨d, w', hd, hrest⟩ := Action.bind_ok hrun
  obtain ⟨r, w'', hr, hwithin⟩ := Action.bind_ok hrest
  obtain ⟨k, b, notices, hk, hlimit, hdepth, hbase⟩ := Render.chain_base env ev r hchain
    env.host.room (.page t.name t.filename (some t.source.text) env.limit) [] w'' rfl
    (Int.le_refl 0) hwithin
  have hfilled : (u.renderFilled ev env find data more).run w =
      (Action.within (.page u.name u.filename (some u.source.text) env.limit)
        (Render.body (Render.aroundFilled env ev find (env.host.room - 1)
          (Render.filledSection env ev find r (env.host.room - 1))) u "render" r
          u.tree.nodes)).run w'' := by
    unfold Template.renderFilled
    rw [EStateM.run_bind, hd]
    simp only
    rw [EStateM.run_bind, hr]
  have hlookup : ∀ name, Option.Rel BoundSection.Agrees
      ((ts.foldl Sections.register []).lookup name) (find name) := by
    intro name
    have hresolved := hchain.lookup_sections hread [] name
    rw [List.lookup_nil, Option.none_or] at hresolved
    rw [hresolved]
    exact hfind name
  have hk : k ≤ env.host.room - 1 := by omega
  have hdeeper : Coupling.both (Boundary.Deeper env.limit) (some b)
      (some (.page u.name u.filename (some u.source.text) env.limit)) :=
    ⟨_, _, rfl, rfl, ⟨Int.le_refl 0, hdepth, hlimit, rfl⟩⟩
  have hfollows := Parallel.within (B := fun _ _ => True) hdeeper
    (Parallel.body Boundary.deeper_keepsLines
      (Render.around_filled env ev r hk hlookup (Render.section_filled env ev r hlookup k _ hk))
      u "render" r u.tree.nodes)
    { w'' with notices } w'' ⟨rfl, trivial⟩
  rw [hbase, ← hfilled] at hfollows
  generalize (u.renderFilled ev env find data more).run w = filled at hfollows
  cases hfollows with
  | done _ h => exact ⟨_, rfl, h.heap.symm⟩

theorem resolved?_agrees (ts : List Template) (name : String) :
    Option.Rel BoundSection.Agrees (resolved? ts name) (resolved? ts name) := by
  cases resolved? ts name with
  | none => exact .none
  | some s => exact .some ⟨rfl, rfl, rfl⟩

/-- A page that defines one of the two places of its layout, and defines it twice. -/
def greetingPages : Environment := .ofTable
  [("a", "@extends('b')@section('s')ho@endsection @section('s')hi@endsection"),
    ("b", "<@yield('s', 'd')|@yield('u', 'e')>")]

def greetingPage : Template :=
  ((greetingPages.load "a").value? World.fresh).get (by decide +kernel)

def greetingLayout : Template :=
  ((greetingPages.load "b").value? World.fresh).get (by decide +kernel)

def greeting : Output :=
  #[.literal "<", .literal "hi", .literal "|", .fallback "e", .literal ">"]

/-- The layout of the page is rendered with its last section and a fallback. -/
theorem greeting_page_renders_filled_base :
    ∃ w₁, greetingPage.IsRead ∧ Chain greetingPages greetingPage [greetingPage] greetingLayout ∧
      (greetingPage.renderBy Evaluator.standard greetingPages .none []).run World.fresh =
        .ok greeting w₁ ∧
      (∀ name, Option.Rel BoundSection.Agrees (resolved? [greetingPage] name)
        (resolved? [greetingPage] name)) ∧
      ∃ w₂, (greetingLayout.renderFilled Evaluator.standard greetingPages
          (resolved? [greetingPage]) .none []).run World.fresh = .ok greeting w₂ ∧
        w₂.heap = w₁.heap := by
  obtain ⟨content, hc⟩ := Environment.ofTable_holds
    [("a", "@extends('b')@section('s')ho@endsection @section('s')hi@endsection"),
      ("b", "<@yield('s', 'd')|@yield('u', 'e')>")]
  have hpage : (greetingPages.load "a").value? World.fresh = some greetingPage :=
    (Option.some_get _).symm
  have hbase : (greetingPages.load "b").value? World.fresh = some greetingLayout :=
    (Option.some_get _).symm
  have hread : greetingPage.IsRead :=
    Environment.Gives.read (hc.content_of_value? hpage ▸ hc.gives "a") |>.2
  have hlayout : greetingPage.tree.layout? = some "b" := by decide +kernel
  have hgives : greetingPages.Gives "b" (.ok greetingLayout) :=
    hc.content_of_value? hbase ▸ hc.gives "b"
  have hlast : greetingLayout.tree.layout? = none := by decide +kernel
  have hchain : Chain greetingPages greetingPage [greetingPage] greetingLayout := by
    refine .layout hlayout hgives ?_
    cases htree : greetingLayout.tree with
    | page ns => exact .base htree
    | extension position layout own =>
      rw [htree] at hlast
      cases hlast
  have hout : (greetingPage.renderBy Evaluator.standard greetingPages .none []).value?
      World.fresh = some greeting := by decide +kernel
  obtain ⟨w₁, hrun⟩ := Action.run_of_value? hout
  exact ⟨w₁, hread, hchain, hrun, resolved?_agrees _,
    chain_renders_filled_base greetingPages Evaluator.standard hread hchain hrun
      (resolved?_agrees _)⟩

end Stencil
