import Stencil.Proofs.TwinRenders

/-!
# Free names

What a template does with its render data depends on nothing but the entries for the names it
reads: those that occur in it, or in a layout on its chain, where no comprehension or anonymous
function makes them visible and no loop binds them. Two renders with data that agree on these run
side by side. They differ in the names that are offered for a missing one, which come from all
keys of the data, and in nothing else.
-/

namespace Stencil

/-- At a place inside some loops and local scopes a name means the render data. -/
def IsFree (loops : List LoopScope) (context : List Shade) (id : String) : Prop :=
  (∀ s ∈ context, id ∉ s.active) ∧ ∀ l ∈ loops, ¬ l.Binds id

/-- The name occurs free in the template. -/
def Template.Reads (t : Template) (id : String) : Prop :=
  ∃ loops context, t.Holds loops context (.name id) ∧ IsFree loops context id

/-- A template is the given one or a layout on its chain. -/
inductive Template.Chain (env : Environment) (t : Template) : Template → Prop
  | self : Chain env t t
  | layout {u v : Template} {name : String} {calls : Nat} {w w' : World} (hu : Chain env t u)
      (hlayout : u.tree.layout? = some name)
      (hload : (env.loadUnder calls name).run w = .ok v w') : Chain env t v

/-- The name occurs free in the template or in a layout on its chain. -/
def Template.Depends (env : Environment) (t : Template) (id : String) : Prop :=
  ∃ u, Chain env t u ∧ u.Reads id

namespace Value

/-- The value of a mapping for a text; the last entry counts. -/
def entry? (entries : Array (Value × Value)) (id : String) : Option Value :=
  entries.foldl (fun found (k, v) =>
    match k with
    | .str name => if name = id then some v else found
    | _ => found) Option.none

/-- All keys are texts. -/
def HasTextKeys (entries : Array (Value × Value)) : Prop :=
  ∀ e ∈ entries, ∃ name, e.1 = .str name

end Value

namespace BindingsOf

theorem get?_update {b b' : Bindings} {id : String} (h : b.get? id = b'.get? id)
    (more : Bindings) : (b.update more).get? id = (b'.update more).get? id := by
  unfold update
  induction more generalizing b b' with
  | nil => exact h
  | cons e more ih =>
    refine ih ?_
    rw [get?_put, get?_put, h]

end BindingsOf

namespace Render

/-- The data of a render holds the entries of a mapping over what every template starts with. -/
theorem dataWith_get? (base : Bindings) (entries : Array (Value × Value)) (id : String) :
    (dataWith base entries).names.get? id = (Value.entry? entries id).or (base.get? id) := by
  have hfold (es : List (Value × Value)) (d : RenderData) (found : Option Value)
      (h : d.names.get? id = found.or (base.get? id)) :
      (es.foldl (fun d (k, v) =>
        match k with
        | .str name => { d with names := d.names.put name v }
        | k => { d with otherKeys := d.otherKeys ++ [k] }) d).names.get? id =
      (es.foldl (fun found (k, v) =>
        match k with
        | .str name => if name = id then some v else found
        | _ => found) found).or (base.get? id) := by
    induction es generalizing d found with
    | nil => exact h
    | cons e es ih =>
      obtain ⟨k, v⟩ := e
      cases k with
      | str name =>
        refine ih _ _ ?_
        dsimp only
        rw [BindingsOf.get?_put]
        by_cases hname : name = id
        · rw [if_pos hname.symm, if_pos hname]
          rfl
        · rw [if_neg (Ne.symm hname), if_neg hname, h]
      | _ => exact ih _ _ h
  unfold dataWith Value.entry?
  rw [← Array.foldl_toList, ← Array.foldl_toList]
  exact hfold _ ⟨base, []⟩ none Option.none_or.symm

theorem dataWith_otherKeys (base : Bindings) {entries : Array (Value × Value)}
    (h : Value.HasTextKeys entries) : (dataWith base entries).otherKeys = [] := by
  have hfold (es : List (Value × Value)) (hes : ∀ e ∈ es, ∃ name, e.1 = .str name)
      (d : RenderData) (hd : d.otherKeys = []) :
      (es.foldl (fun d (k, v) =>
        match k with
        | .str name => { d with names := d.names.put name v }
        | k => { d with otherKeys := d.otherKeys ++ [k] }) d).otherKeys = [] := by
    induction es generalizing d with
    | nil => exact hd
    | cons e es ih =>
      obtain ⟨k, v⟩ := e
      obtain ⟨name, hname⟩ := hes (k, v) List.mem_cons_self
      cases hname
      exact ih (fun e he => hes e (List.mem_cons_of_mem _ he)) _ hd
  unfold dataWith
  rw [← Array.foldl_toList]
  exact hfold _ (fun e he => h e (Array.mem_toList_iff.mp he)) _ rfl

end Render

theorem getD_push_of_lt {α : Type} {xs : Array α} {i : Nat} (h : i < xs.size) (x d : α) :
    (xs.push x).getD i d = xs.getD i d := by
  rw [Array.getD_eq_getD_getElem?, Array.getD_eq_getD_getElem?, Array.getElem?_push,
    if_neg (Nat.ne_of_lt h)]

/-- Both runs know the same data but for entry `k`, where they agree on some names; what the data
at `k` is read for is one of these. -/
def Leeway.reading (k : Ref) (known : String → Prop) : Leeway where
  modes mode mode' := mode = mode'
  allows tracked r _ loops context e := tracked = false ∧
    (r = k → ∀ id, e = .name id → IsFree loops context id → known id)
  data d d' := d.size = d'.size ∧ k < d.size ∧ (∀ r, r ≠ k → d[r]? = d'[r]?) ∧
    (∀ id, known id → (d.getD k default).names.get? id = (d'.getD k default).names.get? id) ∧
    (d.getD k default).otherKeys = [] ∧ (d'.getD k default).otherKeys = []
  offers := True
  lost _ _ := False
  size_eq h := h.1
  push x h := by
    obtain ⟨hsize, hk, hother, hagree, hkeys, hkeys'⟩ := h
    rw [getD_push_of_lt hk, getD_push_of_lt (hsize ▸ hk), Array.size_push,
      Array.size_push]
    refine ⟨congrArg (· + 1) hsize, Nat.lt_succ_of_lt hk, fun r hr => ?_, hagree, hkeys, hkeys'⟩
    rw [Array.getElem?_push, Array.getElem?_push, hsize, hother r hr]
  names h := absurd h.1 nofun
  lost_inside h := h
  lost_told := told_of_never

section Reading

variable {k : Ref} {known : String → Prop} {frames : Array Frame} {s s' : Scope}

theorem dataValue_reading {id : String} (hs : s.Twin (.reading k known) s')
    (hknown : s.data = k → known id) :
    Twin (.reading k known) Same frames (s.dataValue id) (s'.dataValue id) := by
  obtain @⟨mode, loops, hmode, hloops⟩ := hs
  cases hmode
  cases hloops
  intro n h h' ht hg
  obtain ⟨-, -, hother, hagree, hkeys, hkeys'⟩ := ht.data
  by_cases hk : s.data = k
  · have hget := hagree id (hknown hk)
    rw [Scope.dataValue_run, Scope.dataValue_run]
    unfold Scope.dataAnswer
    dsimp only
    rw [hk, ← hget, hkeys, hkeys']
    cases (h.data.getD k default).names.get? id with
    | some v => exact .ok ht (.refl _) rfl
    | none =>
      cases s.lenient with
      | true => exact .ok ht (.refl _) rfl
      | false => exact .error ht (.refl _) (.offered trivial _ _ _)
  · refine dataValue_joined ht ?_ n
    rw [Array.getD_eq_getD_getElem?, Array.getD_eq_getD_getElem?, hother _ hk]

theorem reading_meets : (Leeway.reading k known).Meets Scope.lookup Scope.lookup where
  name hs hf := by
    refine lookup_twin hs _ nofun fun hown hloop => dataValue_reading hs fun hk => ?_
    refine hf.allowed.2 hk _ rfl ⟨fun shade hshade => ?_, fun loop hmem hbinds => ?_⟩
    · obtain ⟨own, hmem, rfl⟩ := List.mem_map.mp hshade
      exact hown own hmem
    · exact List.find?_eq_none.mp hloop loop hmem (LoopScope.binds_iff.mp hbinds)
  member v label hmode := by
    cases hmode
    exact member_alike _ v label

end Reading

/-- Functions and generators of the heap are for render data of the heap. -/
def Heap.IsClosed (h : Heap) : Prop := ∀ c ∈ h.cells, ∀ r, c.data? = some r → r < h.data.size

/-- What was there before knows nothing of new render data. -/
theorem Heap.Twin.of_reading {h : Heap} (hclosed : h.IsClosed) {known : String → Prop}
    {d d' : RenderData} (hagree : ∀ id, known id → d.names.get? id = d'.names.get? id)
    (hkeys : d.otherKeys = []) (hkeys' : d'.otherKeys = []) :
    ({ h with data := h.data.push d } : Heap).Twin (.reading h.data.size known)
      { h with data := h.data.push d' } where
  size := rfl
  cells r c c' hc hc' := by
    cases hc.symm.trans hc'
    have hold := hclosed c (Array.mem_of_getElem? hc)
    refine .of_allowed (fun _ => rfl) nofun fun s hs _ _ => ⟨rfl, fun hk => ?_⟩
    exact absurd hk (Nat.ne_of_lt (hold s.data (Cell.data?_of_scope? hs)))
  frames := rfl
  data := by
    have hget (d : RenderData) : (h.data.push d).getD h.data.size default = d := by
      rw [Array.getD_eq_getD_getElem?, Array.getElem?_push_size]
      rfl
    have hlt : h.data.size < (h.data.push d).size := by
      rw [Array.size_push]
      exact Nat.lt_succ_self _
    refine ⟨by rw [Array.size_push, Array.size_push], hlt, fun r hr => ?_, ?_, ?_, ?_⟩
    · rw [Array.getElem?_push, Array.getElem?_push, if_neg hr, if_neg hr]
    · rw [hget, hget]
      exact hagree
    · rw [hget]
      exact hkeys
    · rw [hget]
      exact hkeys'

theorem reading_coupled (env : Environment) (t : Template) (k : Ref) :
    Render.Coupled (.reading k (t.Depends env)) env env.lenient
      (fun r u => r = k → t.Chain env u) Evaluator.standard Evaluator.standard := by
  have hpaired : Evaluator.standard.Paired (.reading k (t.Depends env)) Evaluator.standard := by
    unfold Evaluator.standard
    rw [← Evaluator.runBy_lookup]
    exact Evaluator.runBy_paired reading_meets _
  refine ⟨rfl, hpaired, hpaired, fun {r u} hmay => ⟨false, fun _ _ loops context e he => ⟨rfl, ?_⟩⟩,
    fun hmay hlayout hload hr => .layout (hmay hr) hlayout hload, fun hd _ hr => ?_⟩
  · intro hr id hid hfree
    exact ⟨u, hmay hr, loops, context, hid ▸ he, hfree⟩
  · exact absurd hr (Nat.ne_of_gt hd.2.1)

/-- Two renders end with the same text, or stop for the same reason at the same place; what is
offered for a missing name may differ. -/
inductive Render.Likewise : EStateM.Result Stop World Output →
    EStateM.Result Stop World Output → Prop
  | rendered (out : Output) (w w' : World) : Likewise (.ok out w) (.ok out w')
  | stopped (s : Stop) (w w' : World) : Likewise (.error s w) (.error s w')
  | missingName (name : String) (guess guess' : Option String) (failure : RenderFailure)
      (w w' : World) : Likewise
        (.error (.failed (.template (.undefined name guess failure))) w)
        (.error (.failed (.template (.undefined name guess' failure))) w')

theorem Render.Likewise.of_met {k : Ref} {known : String → Prop} {frames : Array Frame}
    {r r' : EStateM.Result Stop World Output} (h : Met (.reading k known) Same frames r r') :
    Likewise r r' := by
  cases h with
  | ok hw hg hv =>
    cases hv
    exact .rendered _ _ _
  | error hw hg hs =>
    cases hs with
    | same s => exact .stopped _ _ _
    | offered ho name guess guess' failure => exact .missingName name guess guess' failure _ _
  | lost hl =>
    obtain ⟨_, _, hl, -⟩ := hl
    exact hl.elim

/-- What a template is rendered with: the entries of a mapping and what is given by name over
what every template starts with. -/
def Template.given (env : Environment) (entries : Array (Value × Value)) (more : Bindings) :
    RenderData :=
  let d := Render.dataWith env.baseData entries
  { d with names := d.names.update more }

/-- A render with a mapping is one of the whole template with new render data. -/
theorem Template.render_dict (env : Environment) (t : Template) (r : Ref) (more : Bindings)
    (w : World) : (t.render env (.dict r) more).run w =
      (Action.within (.page t.name t.filename (some t.source.text) env.limit)
        (Render.part env .standard env.host.room (.whole t) w.heap.data.size [])).run
        { w with heap := { w.heap with
            data := w.heap.data.push (given env (w.heap.dictEntries r) more) } } :=
  rfl

theorem Scope.lookup_of_isFree {s : Scope} {id : String} (h : IsFree s.loops s.context id) :
    s.lookup id = s.dataValue id := by
  have hlocals : s.locals.any (·.active.contains id) = false := by
    refine Bool.eq_false_iff.mpr fun hany => ?_
    obtain ⟨own, hmem, hown⟩ := List.any_eq_true.mp hany
    exact h.1 own.shade (List.mem_map_of_mem hmem) (List.contains_iff_mem.mp hown)
  have hloop : s.loopOf? id = none :=
    List.find?_eq_none.mpr fun l hmem hl => h.2 l hmem (LoopScope.binds_iff.mpr hl)
  unfold lookup
  rw [hlocals, hloop]
  rfl

/-- A free name for which the data has no entry is missing, or undefined leniently. -/
theorem Scope.lookup_missing {s : Scope} {id : String} (h : IsFree s.loops s.context id)
    {heap : Heap} (hentry : (heap.data.getD s.data default).names.get? id = none)
    (hkeys : (heap.data.getD s.data default).otherKeys = []) (n : Nat) :
    (s.lookup id).run n heap = if s.lenient then .ok .undefined heap
      else .error (.undefinedName id (heap.data.getD s.data default).names.keys) heap := by
  rw [lookup_of_isFree h, dataValue_run]
  unfold dataAnswer
  rw [hentry, hkeys]
  cases s.lenient with
  | true => rfl
  | false => rfl

/-- A template renders alike with two mappings that agree on the names it depends on, whatever
else they hold; and a free name that the render data lacks is missing, whatever it is. -/
theorem output_depends_on_free_names (env : Environment) (t : Template) (more : Bindings)
    {w : World} (hclosed : w.heap.IsClosed) {r r' : Ref}
    (hkeys : Value.HasTextKeys (w.heap.dictEntries r))
    (hkeys' : Value.HasTextKeys (w.heap.dictEntries r'))
    (hagree : ∀ id, t.Depends env id →
      Value.entry? (w.heap.dictEntries r) id = Value.entry? (w.heap.dictEntries r') id) :
    Render.Likewise ((t.render env (.dict r) more).run w)
        ((t.render env (.dict r') more).run w) ∧
      ∀ (s : Scope) (id : String) (n : Nat) (h : Heap), IsFree s.loops s.context id →
        h.data.getD s.data default = Template.given env (w.heap.dictEntries r) more →
        (Template.given env (w.heap.dictEntries r) more).names.get? id = none →
        (s.lookup id).run n h = if s.lenient then .ok .undefined h else
          .error (.undefinedName id (Template.given env (w.heap.dictEntries r) more).names.keys)
            h := by
  constructor
  · have hagree' (id : String) (hid : t.Depends env id) :
        (Template.given env (w.heap.dictEntries r) more).names.get? id =
          (Template.given env (w.heap.dictEntries r') more).names.get? id := by
      refine BindingsOf.get?_update ?_ more
      rw [Render.dataWith_get?, Render.dataWith_get?, hagree id hid]
    have hheap := Heap.Twin.of_reading hclosed hagree'
      (Render.dataWith_otherKeys env.baseData hkeys)
      (Render.dataWith_otherKeys env.baseData hkeys')
    have hpart : Alike (.reading w.heap.data.size (t.Depends env)) Same w.heap.frames _ _ :=
      (Render.part_alike (reading_coupled env t w.heap.data.size) env.host.room).whole
        (r := w.heap.data.size) .nil (.told (t := t) rfl) fun _ => .self
    rw [Template.render_dict, Template.render_dict]
    exact .of_met (hpart.within _ _ _ ⟨hheap, rfl, rfl⟩ (.refl _))
  · intro s id n h hfree hdata hentry
    have hother : (h.data.getD s.data default).otherKeys = [] :=
      hdata ▸ Render.dataWith_otherKeys env.baseData hkeys
    rw [Scope.lookup_missing hfree (hdata ▸ hentry) hother, hdata]

/-- A page that shows what there is under one name. -/
def Template.plainPage : Template where
  source := ⟨"\x7b\x7b a \x7d\x7d", none, none⟩
  tree := .page [.output ⟨1, 1⟩ ⟨⟨1, 4⟩, "a", .name "a"⟩ true]
  lenient := false

/-- An environment without templates to load. -/
def Environment.bare : Environment :=
  ⟨none, [], [], Boundary.usualLimit, false, .empty, .even⟩

/-- Two mappings, the second with an entry more. -/
def World.twoMappings : World where
  heap.cells := #[.dict #[(.str "a", .int 1)],
    .dict #[(.str "a", .int 1), (.str "ctx", .int 2)]]
  heap.frames := #[]
  heap.data := #[]
  boundary := none
  notices := #[]

theorem Template.plainPage_depends {id : String} (h : plainPage.Depends .bare id) : id = "a" := by
  obtain ⟨u, hu, loops, context, ⟨ns, hns, whole, hw, he⟩, -⟩ := h
  cases hu with
  | layout _ _ hload => cases hload
  | self =>
    rw [List.mem_singleton.mp hns] at hw
    cases hw with
    | shown hn =>
      cases List.mem_singleton.mp hn
      cases he with
      | self => rfl
      | part hp _ => cases hp
      | clause hc _ _ => cases hc
    | given hn | test hn | source hn | again hn => cases List.mem_singleton.mp hn
    | taken hn _ | otherTest hn _ | otherTaken hn _ _ | otherwise hn _ | target hn _ | pass hn _
    | whilePass hn _ => cases List.mem_singleton.mp hn

theorem entry_more_renders_alike :
    let w := World.twoMappings
    w.heap.IsClosed ∧ Value.HasTextKeys (w.heap.dictEntries 0) ∧
      Value.HasTextKeys (w.heap.dictEntries 1) ∧
      (∀ id, Template.plainPage.Depends .bare id → Value.entry? (w.heap.dictEntries 0) id =
        Value.entry? (w.heap.dictEntries 1) id) ∧
      Render.Likewise ((Template.plainPage.render .bare (.dict 0) []).run w)
        ((Template.plainPage.render .bare (.dict 1) []).run w) := by
  intro w
  have hclosed : w.heap.IsClosed := by
    intro c hc r hr
    rcases List.mem_cons.mp (Array.mem_toList_iff.mpr hc) with rfl | hc
    · cases hr
    · cases List.mem_singleton.mp hc
      cases hr
  have hkeys : Value.HasTextKeys (w.heap.dictEntries 0) := by
    intro e he
    cases List.mem_singleton.mp (Array.mem_toList_iff.mpr he)
    exact ⟨"a", rfl⟩
  have hkeys' : Value.HasTextKeys (w.heap.dictEntries 1) := by
    intro e he
    rcases List.mem_cons.mp (Array.mem_toList_iff.mpr he) with rfl | he
    · exact ⟨"a", rfl⟩
    · cases List.mem_singleton.mp he
      exact ⟨"ctx", rfl⟩
  have hagree (id : String) (hid : Template.plainPage.Depends .bare id) :
      Value.entry? (w.heap.dictEntries 0) id = Value.entry? (w.heap.dictEntries 1) id := by
    cases Template.plainPage_depends hid
    simp [Value.entry?, w, World.twoMappings, Heap.dictEntries]
  exact ⟨hclosed, hkeys, hkeys', hagree,
    (output_depends_on_free_names .bare .plainPage [] hclosed hkeys hkeys' hagree).1⟩

end Stencil
