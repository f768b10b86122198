import Mathlib.Data.List.Perm.Subperm
import Stencil.Proofs.ReportedLine

/-!
# How deep a render goes

Partials and layouts are entered one level deeper, up to the limit of the environment. Section
bodies are rendered at the level of the place they fill, so no limit stops a section that comes
back to itself. Where none does, sections nest no deeper at one level than there are sections,
and the nesting of all boundaries is bounded by the limit and the templates.
-/

namespace Stencil

open Render

theorem mem_fst_of_lookup {β : Type} {l : List (String × β)} {name : String}
    (h : (l.lookup name).isSome) : name ∈ l.map Prod.fst := by
  obtain ⟨b, hb⟩ := Option.isSome_iff_exists.mp h
  obtain ⟨before, after, rfl, -⟩ := List.lookup_eq_some_iff.mp hb
  simp

namespace Node

def asked? : Node → Option String
  | .yielding _ name _ => some name
  | _ => none

def askedBy (ns : List Node) : List String := (leavesOf ns).filterMap asked?

theorem mem_askedBy {ns : List Node} {p : Text.Position} {name fallback : String}
    (h : .yielding p name fallback ∈ leavesOf ns) : name ∈ askedBy ns :=
  List.mem_filterMap.mpr ⟨_, h, rfl⟩

end Node

namespace Sections

/-- The section `outer` has a place that the section `inner` fills. -/
def Yields (sections : Sections) (outer inner : String) : Prop :=
  (∃ s, sections.lookup outer = some s ∧ inner ∈ Node.askedBy s.body) ∧
    (sections.lookup inner).isSome

/-- The sections that fill the places of a page and the places of one another. -/
inductive Fills (sections : Sections) (ns : List Node) : String → Prop
  | page {name : String} (hplace : name ∈ Node.askedBy ns)
      (hs : (sections.lookup name).isSome) : Fills sections ns name
  | inside {outer inner : String} (h : Fills sections ns outer)
      (hy : sections.Yields outer inner) : Fills sections ns inner

theorem Fills.isSome {sections : Sections} {ns : List Node} {name : String}
    (h : sections.Fills ns name) : (sections.lookup name).isSome := by
  cases h with
  | page hplace hs => exact hs
  | inside h hy => exact hy.2

def IsAcyclic (sections : Sections) (ns : List Node) : Prop :=
  ∀ name, sections.Fills ns name → ¬ Relation.TransGen sections.Yields name name

/-- Sections of a page that fill places of each other, the innermost first. -/
def Path (sections : Sections) (ns : List Node) (names : List String) : Prop :=
  names.IsChain (fun inner outer => sections.Yields outer inner) ∧
    ∀ name ∈ names, sections.Fills ns name

theorem Path.nodup {sections : Sections} {ns : List Node} (ha : sections.IsAcyclic ns)
    {names : List String} (h : sections.Path ns names) : names.Nodup := by
  have htrans := h.1.imp fun _ _ => Relation.TransGen.single
  have hpairwise := List.isChain_iff_pairwise
    (R := fun inner outer => Relation.TransGen sections.Yields outer inner) |>.mp htrans
  refine hpairwise.imp_of_mem fun {inner outer} hinner _ hyields => ?_
  rintro rfl
  exact ha inner (h.2 inner hinner) hyields

/-- Sections that do not come back to themselves nest no deeper than there are names of them. -/
theorem Path.length_le {sections : Sections} {ns : List Node} (ha : sections.IsAcyclic ns)
    {names all : List String} (h : sections.Path ns names)
    (hall : sections.map Prod.fst ⊆ all) : names.length ≤ all.length :=
  (List.subperm_of_subset (h.nodup ha) fun name hname =>
    hall (mem_fst_of_lookup (h.2 name hname).isSome)).length_le

variable {P : String → BoundSection → Prop} {t : Template} {sections : Sections}

theorem forall_put (h : ∀ x ∈ sections, P x.1 x.2) {x : Section × Nat}
    (hx : P x.1.name ⟨t, x.2, x.1.body⟩) : ∀ y ∈ sections.put t x, P y.1 y.2 := by
  unfold put
  split
  · exact h
  · exact List.forall_mem_append.mpr ⟨h, List.forall_mem_singleton.mpr hx⟩

theorem forall_register (h : ∀ x ∈ sections, P x.1 x.2)
    (ht : ∀ s ∈ t.tree.sections, ∀ i, P s.name ⟨t, i, s.body⟩) :
    ∀ y ∈ sections.register t, P y.1 y.2 := by
  have hfold (l : List (Section × Nat)) (hl : ∀ x ∈ l, x.1 ∈ t.tree.sections) :
      ∀ {sections : Sections}, (∀ x ∈ sections, P x.1 x.2) →
        ∀ y ∈ l.foldl (put t) sections, P y.1 y.2 := by
    induction l with
    | nil => exact fun h => h
    | cons x l ih =>
      obtain ⟨hx, hl⟩ := List.forall_mem_cons.mp hl
      exact fun h => ih hl (forall_put h (ht x.1 hx x.2))
  exact hfold _ (fun x hx => List.fst_mem_of_mem_zipIdx hx) h

end Sections

def sectionNames (templates : List Template) : List String :=
  templates.flatMap fun t => t.tree.sections.map (·.name)

/-- Sections that a template among `templates` may have been handed: none, if it begins a chain,
or those of the template that extends it. -/
inductive Handed (templates : List Template) : Template → Sections → Prop
  | start {t : Template} (ht : t ∈ templates) : Handed templates t []
  | layout {t u : Template} {p : Text.Position} {name : String} {own : List Section}
      {sections : Sections} (h : Handed templates t sections) (ht : t.tree = .extension p name own)
      (hu : u ∈ templates) (hname : u.name = some name) :
      Handed templates u (sections.register t)

section Handing

variable {templates : List Template} {t : Template} {sections : Sections}

theorem Handed.defined (h : Handed templates t sections) :
    t ∈ templates ∧ ∀ x ∈ sections,
      ∃ u ∈ templates, ∃ s ∈ u.tree.sections, s.name = x.1 ∧ s.body = x.2.body := by
  induction h with
  | start ht => exact ⟨ht, fun x hx => absurd hx List.not_mem_nil⟩
  | @layout t u p name own sections h ht hu hname ih =>
    let defined (name : String) (b : BoundSection) : Prop :=
      ∃ u ∈ templates, ∃ s ∈ u.tree.sections, s.name = name ∧ s.body = b.body
    exact ⟨hu, Sections.forall_register (P := defined) ih.2
      fun s hs i => ⟨t, ih.1, s, hs, rfl, rfl⟩⟩

theorem Handed.names (h : Handed templates t sections) :
    sections.map Prod.fst ⊆ sectionNames templates := by
  intro name hname
  obtain ⟨x, hx, rfl⟩ := List.mem_map.mp hname
  obtain ⟨u, hu, s, hs, hname, -⟩ := h.defined.2 x hx
  exact List.mem_flatMap.mpr ⟨u, hu, List.mem_map.mpr ⟨s, hs, hname⟩⟩

/-- In no page does a section handed to it come back to itself. -/
def FillAcyclically (templates : List Template) : Prop :=
  ∀ t sections ns, Handed templates t sections → t.tree = .page ns → sections.IsAcyclic ns

def Template.IsRanked (rank : String → Nat) (t : Template) : Prop :=
  ∀ s ∈ t.tree.sections, ∀ inner ∈ Node.askedBy s.body, rank inner < rank s.name

instance (rank : String → Nat) (t : Template) : Decidable (t.IsRanked rank) :=
  inferInstanceAs (Decidable (∀ s ∈ t.tree.sections, ∀ inner ∈ Node.askedBy s.body,
    rank inner < rank s.name))

/-- Ranks that go down from section to section allow for no way back. -/
theorem fillAcyclically_of_rank (rank : String → Nat) (h : ∀ t ∈ templates, t.IsRanked rank) :
    FillAcyclically templates := by
  intro t sections ns hh _ name _ hback
  have hstep : ∀ outer inner, sections.Yields outer inner → rank inner < rank outer := by
    rintro outer inner ⟨⟨b, hb, hinner⟩, -⟩
    obtain ⟨before, after, hsections, -⟩ := List.lookup_eq_some_iff.mp hb
    have hmem : (outer, b) ∈ sections := by
      rw [hsections]
      exact List.mem_append_right _ List.mem_cons_self
    obtain ⟨u, hu, s, hs, rfl, hbody⟩ := hh.defined.2 _ hmem
    exact h u hu s hs inner (hbody ▸ hinner)
  have hdown : ∀ outer inner, Relation.TransGen sections.Yields outer inner →
      rank inner < rank outer := by
    intro outer inner hpath
    induction hpath with
    | single hy => exact hstep _ _ hy
    | tail _ hy ih => exact (hstep _ _ hy).trans ih
  exact (hdown name name hback).false

end Handing

/-- The templates of an environment. -/
def Environment.HasOnly (env : Environment) (templates : List Template) : Prop :=
  ∀ calls name t w w', (env.loadUnder calls name).run w = .ok t w' → t ∈ templates

section Nesting

variable (env : Environment) (ev : Evaluator)

/-- Rendering an entry from `w`, with at most `n` boundaries inside one another, comes to have `k`
of them inside one another, that of the entry included. -/
inductive Nests : Nat → Entry → World → Nat → Prop
  | one (n : Nat) (e : Entry) (w : World) : Nests n e w 1
  | inside {n k : Nat} {e e' : Entry} {w w' : World} {a : Act} (ha : e.Acts env ev n w a)
      (he : a.action.run a.world = .ok (some e') w') (h : Nests n e' w' k) :
      Nests (n + 1) e w (k + 1)

/-- Where an entry stands: a whole template with the sections handed to it, or a section inside
others of the same page, of the names `names`, the innermost first. -/
inductive Stands (templates : List Template) (e : Entry) : List String → Prop
  | whole {t : Template} (hp : e.part = .whole t) (hh : Handed templates t e.sections) :
      Stands templates e []
  | filled {s : BoundSection} {ns : List Node} {name : String} {names : List String}
      (hp : e.part = .sectionBody s) (hs : e.sections.lookup name = some s)
      (hpath : e.sections.Path ns (name :: names)) (ha : e.sections.IsAcyclic ns)
      (hnames : e.sections.map Prod.fst ⊆ sectionNames templates) :
      Stands templates e (name :: names)

variable {env ev} {templates : List Template} {n k : Nat} {e e' : Entry} {w : World}
  {names : List String}

theorem Stands.length_le (h : Stands templates e names) :
    names.length ≤ (sectionNames templates).length := by
  cases h with
  | whole hp hh => exact Nat.zero_le _
  | filled hp hs hpath ha hnames => exact hpath.length_le ha hnames

/-- How many more boundaries there may be from an entry on, its own included. -/
def room (templates : List Template) (b : Boundary) (names : List String) : Nat :=
  (b.limit - b.depth).toNat * ((sectionNames templates).length + 1) +
    ((sectionNames templates).length + 1 - names.length)

theorem room_child {b b' : Boundary} (hdepth : b'.depth = b.depth + 1) (hlimit : b'.limit = b.limit)
    (hd : b.depth < b.limit) (hlen : names.length ≤ (sectionNames templates).length) :
    room templates b' [] < room templates b names := by
  unfold room
  have hstep : (b.limit - b.depth).toNat = (b'.limit - b'.depth).toNat + 1 := by omega
  rw [hstep, Nat.add_one_mul, List.length_nil]
  omega

/-- A section at the same level has less room than what it is inside of. -/
theorem room_filled {b b' : Boundary} {name : String} (hdepth : b'.depth = b.depth)
    (hlimit : b'.limit = b.limit)
    (hlen : (name :: names).length ≤ (sectionNames templates).length) :
    room templates b' (name :: names) < room templates b names := by
  unfold room
  rw [hdepth, hlimit]
  rw [List.length_cons] at hlen ⊢
  omega

/-- A place is filled inside of the page or the section that it belongs to. -/
theorem Stands.place (hacyclic : FillAcyclically templates) (hs : Stands templates e names)
    {t : Template} {path : String} {ns : List Node} {p : Text.Position} {name fallback : String}
    {s : BoundSection} (hbody : e.part.body? = some (t, path, ns))
    (hplace : .yielding p name fallback ∈ Node.leavesOf ns)
    (hlookup : e.sections.lookup name = some s) {b : Boundary} (hb : b.line = 0) :
    Stands templates ⟨b, .sectionBody s, e.data, e.sections, hb⟩ (name :: names) := by
  have hsome : (e.sections.lookup name).isSome := Option.isSome_of_eq_some hlookup
  have hasked := Node.mem_askedBy hplace
  cases hs with
  | @whole u hp hh =>
    have htree : u.tree = .page ns := by
      rw [hp] at hbody
      simp only [Part.body?] at hbody
      split at hbody
      · rename_i ns' htree
        cases hbody
        exact htree
      · cases hbody
    have hpath : e.sections.Path ns [name] :=
      ⟨List.isChain_singleton name, List.forall_mem_singleton.mpr (.page hasked hsome)⟩
    exact .filled rfl hlookup hpath (hacyclic u _ ns hh htree) hh.names
  | @filled outer page name' names hp houter hpath ha hnames =>
    rw [hp] at hbody
    cases hbody
    have hyields : e.sections.Yields name' name := ⟨⟨outer, houter, hasked⟩, hsome⟩
    have hfills := hpath.2 name' List.mem_cons_self
    have hpath' : e.sections.Path page (name :: name' :: names) :=
      ⟨List.isChain_cons_cons.mpr ⟨hyields, hpath.1⟩,
        List.forall_mem_cons.mpr ⟨.inside hfills hyields, hpath.2⟩⟩
    exact .filled rfl hlookup hpath' ha hnames

/-- From where an entry stands every entry made by it has less room. -/
theorem leads_stands (honly : env.HasOnly templates) (hacyclic : FillAcyclically templates)
    (h : e.Leads env e') (hs : Stands templates e names) :
    ∃ names', Stands templates e' names' ∧
      room templates e'.boundary names' < room templates e.boundary names := by
  have hlen := hs.length_le
  cases h with
  | place hbody hplace hlookup =>
    have hlen' := (hs.place hacyclic hbody hplace hlookup e.unmarked).length_le
    exact ⟨_, hs.place hacyclic hbody hplace hlookup rfl, room_filled rfl rfl hlen'⟩
  | inclusion hd hload =>
    exact ⟨[], .whole rfl (.start (honly _ _ _ _ _ hload)), room_child rfl rfl hd hlen⟩
  | layout hp ht hc hd hload =>
    cases hs with
    | whole hp' hh =>
      cases hp'.symm.trans hp
      have hname := (Environment.loadUnder_ok hload).1
      exact ⟨[], .whole rfl (.layout hh ht (honly _ _ _ _ _ hload) hname),
        room_child rfl rfl hd hlen⟩
    | filled hp' => cases hp'.symm.trans hp

theorem Nests.le_room (honly : env.HasOnly templates) (hacyclic : FillAcyclically templates)
    (h : Nests env ev n e w k) (hs : Stands templates e names) :
    k ≤ room templates e.boundary names := by
  induction h generalizing names with
  | one n e w =>
    have hlen := hs.length_le
    unfold room
    omega
  | inside ha he h ih =>
    obtain ⟨names', hs', hroom⟩ := leads_stands honly hacyclic (ha.leads he) hs
    have := ih hs'
    omega

/-- A template that cannot be entered is inside as many boundaries as there may be. -/
theorem FailsAt.nests {u : Option String} {c : Cause}
    (h : FailsAt env ev n e w (.entrance u) c) : Nests env ev n e w (n + 1) := by
  generalize hsite : Site.entrance u = site at h
  induction h with
  | here h htold =>
    cases h with
    | entrance => exact .one 0 _ _
    | act ha hs hc => cases hsite
    | untold ha he h hg => cases hsite
  | inside ha he h ih => exact .inside ha he (ih hsite)

end Nesting

theorem Template.startData_run (env : Environment) {data : Value} (more : Bindings) (w : World)
    (h : data = .none ∨ ∃ r, data = .dict r) :
    ∃ r w₁, (Template.startData env data more).run w = .ok r w₁ := by
  obtain rfl | ⟨r, rfl⟩ := h
  · exact ⟨_, _, rfl⟩
  · exact ⟨_, _, rfl⟩

/-- The most boundaries there can be inside one another in a render: at each level that the limit
allows, a template and the sections. -/
def mostBoundaries (env : Environment) (templates : List Template) : Nat :=
  (env.limit.toNat + 1) * ((sectionNames templates).length + 1)

/-- Where no section comes back to itself, the nesting of boundaries is bounded by the limit and
the templates, whatever the data and however many calls may be under way. If so many calls may be,
no template is entered in vain. A render with a mapping for data ends in output or in an error of
a template, unless a loop or an evaluation in it goes on without end, or what it ends with cannot be
told. -/
theorem nesting_bounded {ev : Evaluator} {env : Environment} {templates : List Template}
    (honly : env.HasOnly templates) (hacyclic : FillAcyclically templates) {t : Template}
    (ht : t ∈ templates) :
    (∀ n r w k, Nests env ev n (t.entry env r) w k → k ≤ mostBoundaries env templates) ∧
      (mostBoundaries env templates ≤ env.host.room →
        ∀ r w u c, ¬ FailsAt env ev env.host.room (t.entry env r) w (.entrance u) c) ∧
      ∀ data more w, (data = .none ∨ ∃ r, data = .dict r) →
        ∃ r w₁, (Template.startData env data more).run w = .ok r w₁ ∧
          ((∃ out w', (t.renderBy ev env data more).run w = .ok out w') ∨
            (∃ err w', (t.renderBy ev env data more).run w =
              .error (.failed (.template err)) w') ∨
            RunsOut env ev env.host.room (t.entry env r) w₁ ∨
            ∃ site c g w', FailsHere env ev env.host.room (t.entry env r) w₁ site c ∧
              c.inTelling? = some g ∧
              (t.renderBy ev env data more).run w = .error (.failed (.fault g)) w') := by
  have hstands : ∀ r, Stands templates (t.entry env r) [] := fun r => .whole rfl (.start ht)
  have hroom : ∀ r, room templates (t.entry env r).boundary [] = mostBoundaries env templates :=
    fun r => by
      change (env.limit - 0).toNat * _ + _ = _
      rw [Int.sub_zero, List.length_nil, Nat.sub_zero, mostBoundaries, Nat.add_one_mul]
  have hbound : ∀ n r w k, Nests env ev n (t.entry env r) w k →
      k ≤ mostBoundaries env templates :=
    fun n r w k h => hroom r ▸ h.le_room honly hacyclic (hstands r)
  refine ⟨hbound, fun hmost r w u c hfails => ?_, fun data more w hdata => ?_⟩
  · have := hbound _ _ _ _ hfails.nests
    omega
  · obtain ⟨r, w₁, hstart⟩ := Template.startData_run env more w hdata
    refine ⟨r, w₁, hstart, ?_⟩
    rw [Template.renderBy_eq, Action.bind_of_ok hstart]
    cases hrun : ((t.entry env r).render (part env ev env.host.room)).run w₁ with
    | ok out w' => exact .inl ⟨out, w', rfl⟩
    | error s w' =>
      cases render_report env.host.room hrun with
      | outOfSteps h => exact .inr (.inr (.inl h))
      | unplaced herr => exact .inr (.inl ⟨_, _, rfl⟩)
      | placed hfails hb hline => exact .inr (.inl ⟨_, _, rfl⟩)
      | untold hfails hg => exact .inr (.inr (.inr ⟨_, _, _, _, hfails, hg, rfl⟩))

theorem Environment.ofTable_hasOnly {table : List (String × String)}
    {content : String → Except Failure Template} (hc : (ofTable table).Holds content)
    {templates : List Template}
    (h : ∀ name ∈ table.map Prod.fst, ∀ t, content name = .ok t → t ∈ templates) :
    (ofTable table).HasOnly templates := by
  intro calls name t w w' hload
  have hcontent := ((hc.gives name calls).of_ok hload).1
  refine h name ?_ t hcontent
  obtain ⟨found, w₁, hfound, -⟩ := Action.bind_ok hload
  unfold Loader.find at hfound
  cases hlookup : table.lookup name with
  | none =>
    rw [hlookup] at hfound
    cases hfound
  | some source => exact mem_fst_of_lookup (Option.isSome_of_eq_some hlookup)

/-- A page with a section that yields to another one, its layout and a partial. -/
def cardPages : Environment := .ofTable
  [("page", "@extends('base')@section('card')[@yield('title')]@endsection" ++
      "@section('title')@include('mark')@endsection"),
    ("base", "@yield('card')"), ("mark", "x")]

def cardRank (name : String) : Nat := if name = "card" then 1 else 0

theorem cards_nest_boundedly :
    ∃ templates t, cardPages.HasOnly templates ∧ FillAcyclically templates ∧ t ∈ templates ∧
      (∀ n r w k, Nests cardPages Evaluator.standard n (t.entry cardPages r) w k →
        k ≤ mostBoundaries cardPages templates) ∧
      (mostBoundaries cardPages templates ≤ cardPages.host.room → ∀ r w u c,
        ¬ FailsAt cardPages Evaluator.standard cardPages.host.room (t.entry cardPages r) w
          (.entrance u) c) ∧
      ∀ data more w, (data = .none ∨ ∃ r, data = .dict r) →
        ∃ r w₁, (Template.startData cardPages data more).run w = .ok r w₁ ∧
          ((∃ out w', (t.renderBy Evaluator.standard cardPages data more).run w = .ok out w') ∨
            (∃ err w', (t.renderBy Evaluator.standard cardPages data more).run w =
              .error (.failed (.template err)) w') ∨
            RunsOut cardPages Evaluator.standard cardPages.host.room (t.entry cardPages r) w₁ ∨
            ∃ site c g w', FailsHere cardPages Evaluator.standard cardPages.host.room
              (t.entry cardPages r) w₁ site c ∧ c.inTelling? = some g ∧
              (t.renderBy Evaluator.standard cardPages data more).run w =
                .error (.failed (.fault g)) w') := by
  obtain ⟨content, hc⟩ : ∃ content, cardPages.Holds content := Environment.ofTable_holds _
  have hload (name : String)
      (h : ((cardPages.load name).value? .fresh).any (·.IsRanked cardRank) = true) :
      ∃ t, content name = .ok t ∧ t.IsRanked cardRank := by
    obtain ⟨t, ht, hranked⟩ := (Option.any_eq_true ..).mp h
    exact ⟨t, hc.content_of_value? ht, of_decide_eq_true hranked⟩
  obtain ⟨page, hpage, hpageRanked⟩ := hload "page" (by decide +kernel)
  obtain ⟨base, hbase, hbaseRanked⟩ := hload "base" (by decide +kernel)
  obtain ⟨mark, hmark, hmarkRanked⟩ := hload "mark" (by decide +kernel)
  have honly : cardPages.HasOnly [page, base, mark] := by
    refine Environment.ofTable_hasOnly hc ?_
    simp [hpage, hbase, hmark]
  have hacyclic : FillAcyclically [page, base, mark] :=
    fillAcyclically_of_rank cardRank (by simp [hpageRanked, hbaseRanked, hmarkRanked])
  have hmem : page ∈ [page, base, mark] := List.mem_cons_self
  exact ⟨_, page, honly, hacyclic, hmem, nesting_bounded honly hacyclic hmem⟩

section Endless

variable {env : Environment} {ev : Evaluator} {n k : Nat} {e : Entry} {w : World}

/-- What begins with a place goes as deep as the section that fills it, and one deeper. -/
theorem Nests.place {t : Template} {path : String} {ns : List Node} {p : Text.Position}
    {name fallback : String} {s : BoundSection}
    (hbody : e.part.body? = some (t, path, .yielding p name fallback :: ns))
    (hlookup : e.sections.lookup name = some s)
    (h : ∀ e' w', e'.part = .sectionBody s → e'.sections = e.sections → Nests env ev n e' w' k) :
    Nests env ev (n + 1) e w (k + 1) := by
  have hframe : ∃ frame w₁, ((e.reach env ev n).evaluate (Eval.newFrame [])).run
      { w with boundary := some e.boundary } = .ok frame w₁ := ⟨_, _, rfl⟩
  obtain ⟨frame, w₁, hframe⟩ := hframe
  have hw₁ : (w₁.marked p.line).boundary = some (e.boundary.atLine p.line) := by
    rw [Action.evaluateUnder_ok hframe]
    rfl
  have hentry : ∃ e' w', (sectionEntry e.data e.sections name).run (w₁.marked p.line) =
      .ok (some e') w' ∧ e'.part = .sectionBody s ∧ e'.sections = e.sections := by
    unfold sectionEntry
    rw [hlookup]
    exact ⟨_, _, Action.run_here_bind hw₁ _, rfl, rfl⟩
  obtain ⟨e', w', hentry, hpart, hsections⟩ := hentry
  exact .inside (.body hbody hframe (.head .place)) hentry (h e' w' hpart hsections)

/-- A section that begins with the place it fills goes as deep as it may. -/
theorem Nests.section_in_itself {ns : List Node} {p : Text.Position} {name fallback : String}
    {s : BoundSection} (hbody : s.body = .yielding p name fallback :: ns) (n : Nat) :
    ∀ {e : Entry} {w : World}, e.part = .sectionBody s → e.sections.lookup name = some s →
      Nests env ev n e w (n + 1) := by
  induction n with
  | zero => exact fun _ _ => .one 0 _ _
  | succ n ih =>
    intro e w hp hlookup
    refine .place (by rw [hp, Part.body?, hbody]) hlookup fun e' w' hp' hsections => ?_
    exact ih hp' (hsections ▸ hlookup)

/-- A template that extends a layout goes as deep as the layout, and one deeper. -/
theorem Nests.layout {t u : Template} {p : Text.Position} {name : String} {own : List Section}
    (hp : e.part = .whole t) (ht : t.tree = .extension p name own) (hc : name ∉ e.boundary.chain)
    (hd : e.boundary.depth < e.boundary.limit) (hload : env.Gives name (.ok u))
    (h : ∀ e' w', e'.part = .whole u → e'.sections = e.sections.register t →
      Nests env ev n e' w' k) : Nests env ev (n + 1) e w (k + 1) := by
  let w₁ := World.marked { w with boundary := some e.boundary } p.line
  obtain ⟨notices, hload⟩ := hload (env.host.calls n) w₁
  have hcycle : (e.boundary.atLine p.line).checkCycle name = .ok () := checkCycle_ok.mpr hc
  have hdepth : (e.boundary.atLine p.line).checkDepth name = .ok () := checkDepth_ok.mpr hd
  have hentry : ∃ e' w', (layoutEntry env (env.host.calls n) e.data (e.sections.register t) name).run
      w₁ = .ok e' w' ∧ e'.part = .whole u ∧ e'.sections = e.sections.register t := by
    unfold layoutEntry
    rw [Action.run_here_bind (b := e.boundary.atLine p.line) rfl, hcycle, hdepth]
    exact ⟨_, _, Action.bind_of_ok hload _, rfl, rfl⟩
  obtain ⟨e', w', hentry, hpart, hsections⟩ := hentry
  exact .inside (.layout hp ht) (Action.bind_of_ok hentry _) (h e' w' hpart hsections)

/-- A page that has nothing but such a section, and a layout with a place for it. -/
theorem Nests.page_in_itself {page base : Template} {p q q' : Text.Position}
    {layout name fallback fallback' : String} {start : Text.Position}
    (hpage : page.tree = .extension p layout [⟨start, name, [.yielding q name fallback]⟩])
    (hbase : base.tree = .page [.yielding q' name fallback'])
    (hload : env.Gives layout (.ok base)) {r : Ref}
    (hnew : layout ∉ (page.entry env r).boundary.chain) (hlimit : 0 < env.limit) (n : Nat)
    (w : World) : Nests env ev (n + 2) (page.entry env r) w (n + 3) := by
  let s : BoundSection := ⟨page, 0, [.yielding q name fallback]⟩
  have hregister : Sections.register [] page = [(name, s)] := by
    unfold Sections.register
    rw [hpage]
    rfl
  have hlookup : (Sections.register [] page).lookup name = some s := by
    rw [hregister, List.lookup_cons_self]
  refine .layout rfl hpage hnew hlimit hload fun e w hp hsections => ?_
  have hbody : e.part.body? = some (base, "render", [.yielding q' name fallback']) := by
    rw [hp, Part.body?, hbase]
  have hlookup : e.sections.lookup name = some s := hsections ▸ hlookup
  refine .place hbody hlookup fun e' w' hp' hsections' => ?_
  exact .section_in_itself rfl n hp' (hsections' ▸ hlookup)

end Endless

def Node.solePlace? : List Node → Option String
  | [.yielding _ name _] => some name
  | _ => none

theorem Node.eq_of_solePlace? {ns : List Node} {name : String} (h : solePlace? ns = some name) :
    ∃ p fallback, ns = [.yielding p name fallback] := by
  unfold solePlace? at h
  split at h
  · cases h
    exact ⟨_, _, rfl⟩
  · cases h

/-- The layout of a page and the name of its only section, which is but a place for itself. -/
def Tree.inItself? : Tree → Option (String × String)
  | .extension _ layout [s] => if Node.solePlace? s.body = some s.name then some (layout, s.name)
    else none
  | _ => none

theorem Tree.eq_of_inItself? {tree : Tree} {layout name : String}
    (h : tree.inItself? = some (layout, name)) :
    ∃ p start q fallback,
      tree = .extension p layout [⟨start, name, [.yielding q name fallback]⟩] := by
  unfold inItself? at h
  split at h
  · rename_i p layout' s
    split at h
    · rename_i hs
      obtain ⟨q, fallback, hbody⟩ := Node.eq_of_solePlace? hs
      cases h
      exact ⟨p, s.position, q, fallback, by rw [← hbody]⟩
    · cases h
  · cases h

/-- The fault that a render was stopped by. -/
def Stop.cause? : Stop → Option Fault
  | .failed (.template err) => err.failure?.bind (·.cause)
  | _ => none

/-- A section that fills the place in itself, and a page that looks up a key of more digits than
may be written. -/
def selfPages : Environment := .ofTable
  [("page", "@extends('base')@section('s')@yield('s')@endsection"), ("base", "@yield('s')"),
    ("long", "\x7b\x7b \x7b\x7d[10**5000] \x7d\x7d")]

/-- Nothing bounds the nesting of boundaries in a page with such a section, and it is too many calls
that end its render, not the limit. Nor does a page end with an error of a template if what is wrong
in it cannot be told. -/
theorem section_in_itself_unbounded :
    ∃ page, (selfPages.load "page").value? .fresh = some page ∧
      (¬ ∃ bound, ∀ n r w k, Nests selfPages Evaluator.standard n (page.entry selfPages r) w k →
        k ≤ bound) ∧
      ((selfPages.render "page" .none []).stop? .fresh).bind Stop.cause? = some .tooRecursive ∧
      (selfPages.render "long" .none []).stop? .fresh = some (.failed (.fault (.value
        ("Exceeds the limit (4300 digits) for integer string conversion; " ++
          "use sys.set_int_max_str_digits() to increase the limit")))) := by
  obtain ⟨content, hc⟩ : ∃ content, selfPages.Holds content := Environment.ofTable_holds _
  have hpage : ((selfPages.load "page").value? .fresh).any (fun t =>
      t.name = some "page" ∧ t.tree.inItself? = some ("base", "s")) = true := by decide +kernel
  have hbase : ((selfPages.load "base").value? .fresh).any (fun t =>
      t.tree.layout? = none ∧ Node.solePlace? t.tree.nodes = some "s") = true := by decide +kernel
  obtain ⟨page, hpageLoads, hpage⟩ := (Option.any_eq_true ..).mp hpage
  obtain ⟨base, hbaseLoads, hbase⟩ := (Option.any_eq_true ..).mp hbase
  obtain ⟨hname, hpage⟩ := of_decide_eq_true hpage
  obtain ⟨p, start, q, fallback, hpage⟩ := Tree.eq_of_inItself? hpage
  obtain ⟨hlayout, hplace⟩ := of_decide_eq_true hbase
  obtain ⟨q', fallback', hplace⟩ := Node.eq_of_solePlace? hplace
  have hbase : base.tree = .page [.yielding q' "s" fallback'] := by
    cases htree : base.tree with
    | page ns =>
      rw [htree] at hplace
      exact congrArg Tree.page hplace
    | extension p layout own =>
      rw [htree] at hlayout
      cases hlayout
  have hgives : selfPages.Gives "base" (.ok base) :=
    hc.content_of_value? hbaseLoads ▸ hc.gives "base"
  refine ⟨page, hpageLoads, ?_, by decide +kernel, by decide +kernel⟩
  rintro ⟨bound, hbound⟩
  have hnew : "base" ∉ (page.entry selfPages 0).boundary.chain := by
    change "base" ∉ (nonEmpty page.name).toList
    rw [hname]
    decide
  have hdeep := hbound _ 0 .fresh _ <|
    .page_in_itself hpage hbase hgives hnew (by decide) bound .fresh
  omega

end Stencil
