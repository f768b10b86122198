import Mathlib.Data.List.Find
import Stencil.Proofs.ExactRuns
import Stencil.Proofs.FreeNames
import Stencil.Proofs.LoopPlaces
import Stencil.Proofs.Mentions

/-!
# Lexical scope

What a name means is settled by where it stands. It is the variable of the innermost comprehension
or anonymous function around it that makes it visible there; failing that, the variable of the
innermost loop around it that binds it, where every loop binds `loop`; failing that, an entry of
the render data. So a rule for names that knows only this does for all expressions of a render,
and says nothing of variables without a value, since there are none where a name can mean them.
-/

namespace Stencil

/-- The innermost local scope that ever binds the name makes it visible at the place. -/
def Shade.InOrder (id : String) : List Shade → Prop
  | [] => True
  | s :: outer => id ∈ s.active ∨ id ∉ s.bound ∧ InOrder id outer

/-- The variable that a name means, in its frame; none if it means the render data. -/
def Scope.binder? (s : Scope) (id : String) : Option (Ref × Variable) :=
  match s.locals.find? (·.active.contains id) with
  | some own => some (own.frame, .own id)
  | none => (s.loops.find? fun l => l.names.contains id || id = "loop").map fun l =>
      (s.frame, .ofLoop l.position id)

def Heap.current (h : Heap) (f : Ref) (x : Variable) : Option Value := (h.frames.getD f []).get? x

/-- A template whose expressions a render may come to. -/
inductive Template.InPlay (env : Environment) (t : Template) : Template → Prop
  | self : InPlay env t t
  | loaded {u : Template} {name : String} {calls : Nat} {w w' : World}
      (h : (env.loadUnder calls name).run w = .ok u w') : InPlay env t u

def Template.HasNameTargets (t : Template) : Prop :=
  ∀ loops context e, t.Holds loops context e → e.HasNameTargets

/-- A place of a name where it is in order, in a template whose comprehension targets are names. -/
def Template.IsPlace (env : Environment) (t : Template) (loops : List LoopScope)
    (context : List Shade) (id : String) : Prop :=
  ∃ u, InPlay env t u ∧ u.HasNameTargets ∧ u.Holds loops context (.name id) ∧
    Shade.InOrder id context

/-- A rule for names that goes by their places, for renders with data from `k` on. Where a name
stands at no such place it is free; so it is in what it makes of a variable without a value,
unless the same place is also in a template where some comprehension target is no name. -/
structure Scope.IsLexical (env : Environment) (t : Template) (k : Ref)
    (look : Scope → String → Eval Value) : Prop where
  bound : ∀ {s id f x}, k ≤ s.data → t.IsPlace env s.loops s.context id →
    s.binder? id = some (f, x) → ∀ n h v, h.current f x = some v → (look s id).run n h = .ok v h
  free : ∀ {s id}, k ≤ s.data → t.IsPlace env s.loops s.context id → s.binder? id = none →
    look s id = s.dataValue id
  /-- Names of templates or comprehensions that are not covered are looked up. -/
  uncovered : ∀ {s id u}, ¬ t.IsPlace env s.loops s.context id → t.InPlay env u →
    u.Holds s.loops s.context (.name id) → look s id = s.lookup id
  shared : ∀ {s id u f x}, t.IsPlace env s.loops s.context id → t.InPlay env u →
    ¬ u.HasNameTargets → u.Holds s.loops s.context (.name id) → s.binder? id = some (f, x) →
      ∀ n h, h.current f x = none → (look s id).run n h = (s.lookup id).run n h
  /-- Code that was there before is none of the templates'. -/
  earlier : ∀ {s id}, s.data < k → look s id = s.lookup id

/-- Where comprehension targets are names, what is visible in a local scope is bound by it. -/
theorem Expr.Holds.active_bound {context context' : List Shade} {e f : Expr}
    (h : Expr.Holds context e context' f)
    (hnames : ∀ inner g, Expr.Holds context e inner g → g.HasNameTargets)
    (hcontext : ∀ s ∈ context, s.active ⊆ s.bound) : ∀ s ∈ context', s.active ⊆ s.bound := by
  induction h with
  | self => exact hcontext
  | part hp _ ih => exact ih (fun inner g hg => hnames inner g (.part hp hg)) hcontext
  | body _ ih =>
    refine ih (fun inner g hg => hnames inner g (.body hg)) fun s hs => ?_
    rcases List.mem_cons.mp hs with rfl | hs
    · exact List.Subset.refl _
    · exact hcontext s hs
  | @clause context _ e _ _ _ clauses n he hp _ ih =>
    refine ih (fun inner g hg => hnames inner g (.clause he hp hg)) fun s hs => ?_
    rcases List.mem_cons.mp hs with rfl | hs
    · intro id hid
      obtain ⟨c, hc, hid⟩ := List.mem_flatMap.mp hid
      have hclause := List.mem_of_mem_take hc
      rw [Expr.occurringNames_of_isNames _ (hnames context e .self _ _ he c hclause)] at hid
      exact List.mem_flatMap.mpr ⟨c, hclause, hid⟩
    · exact hcontext s hs

namespace Template.IsPlace

variable {env : Environment} {t : Template} {loops : List LoopScope} {context : List Shade}
  {id : String}

theorem active_bound (h : t.IsPlace env loops context id) :
    ∀ s ∈ context, s.active ⊆ s.bound := by
  obtain ⟨u, -, hu, ⟨ns, hns, whole, hw, he⟩, -⟩ := h
  exact he.active_bound (fun inner g hg => hu loops inner g ⟨ns, hns, whole, hw, hg⟩) nofun

theorem binds_loop (h : t.IsPlace env loops context "loop") : ∀ l ∈ loops, l.Binds "loop" := by
  obtain ⟨u, -, -, ⟨ns, hns, whole, hw, he⟩, -⟩ := h
  exact hw.binds_loop he nofun

theorem inOrder (h : t.IsPlace env loops context id) : Shade.InOrder id context := by
  obtain ⟨u, -, -, -, horder⟩ := h
  exact horder

end Template.IsPlace

section Lookup

variable {s : Scope} {id : String}

/-- The innermost scope that makes the name visible is the innermost that binds it. -/
theorem findIdx?_bound_of_find?_active {locals : List LocalScope} {own : LocalScope}
    (horder : Shade.InOrder id (locals.map LocalScope.shade))
    (hbound : ∀ own ∈ locals, id ∈ own.active → id ∈ own.bound)
    (hfind : locals.find? (fun own => own.active.contains id) = some own) :
    ∃ i, locals.findIdx? (fun own => own.bound.contains id) = some i ∧ locals[i]? = some own := by
  induction locals with
  | nil => cases hfind
  | cons l locals ih =>
    rw [List.find?_cons] at hfind
    rw [List.findIdx?_cons]
    by_cases hactive : id ∈ l.active
    · rw [List.contains_iff_mem.mpr hactive] at hfind
      cases hfind
      rw [List.contains_iff_mem.mpr (hbound _ List.mem_cons_self hactive)]
      exact ⟨0, rfl, rfl⟩
    · have hnot : id ∉ l.bound ∧ Shade.InOrder id (locals.map LocalScope.shade) :=
        Or.resolve_left horder hactive
      rw [Bool.eq_false_iff.mpr fun h => hactive (List.contains_iff_mem.mp h)] at hfind
      rw [Bool.eq_false_iff.mpr fun h => hnot.1 (List.contains_iff_mem.mp h)]
      have hrest := fun own hown => hbound own (List.mem_cons_of_mem _ hown)
      obtain ⟨i, hi, hown⟩ := ih hnot.2 hrest hfind
      refine ⟨i + 1, ?_, hown⟩
      rw [hi]
      rfl

/-- Where every loop binds `loop`, it need not be asked whether a loop counts its passes. -/
theorem Scope.loopOf?_eq (h : id = "loop" → ∀ l ∈ s.loops, l.Binds "loop") :
    s.loopOf? id = s.loops.find? fun l => l.names.contains id || id = "loop" := by
  refine List.find?_congr fun l hl => ?_
  by_cases hid : id = "loop"
  · subst hid
    rw [LoopScope.binds_iff.mp (h rfl l hl), decide_eq_true rfl, Bool.or_true]
  · rw [decide_eq_false hid, Bool.and_false]

/-- A name that means a variable means one of the innermost local scope where it is visible, or,
if there is none, of the innermost loop that binds it. -/
theorem Scope.binder?_cases {f : Ref} {x : Variable} (h : s.binder? id = some (f, x)) :
    (∃ own, s.locals.find? (fun own => own.active.contains id) = some own ∧
      f = own.frame ∧ x = .own id) ∨
    s.locals.find? (fun own => own.active.contains id) = none ∧
      ∃ l, s.loops.find? (fun l => l.names.contains id || id = "loop") = some l ∧
        f = s.frame ∧ x = .ofLoop l.position id := by
  unfold binder? at h
  cases hown : s.locals.find? fun own => own.active.contains id with
  | some own =>
    rw [hown] at h
    cases h
    exact .inl ⟨own, rfl, rfl, rfl⟩
  | none =>
    rw [hown] at h
    obtain ⟨l, hl, hfx⟩ := Option.map_eq_some_iff.mp h
    cases hfx
    exact .inr ⟨rfl, l, hl, rfl, rfl⟩

theorem Eval.run_frame_bind (f : Ref) (g : Frame → Eval Value) (n : Nat) (h : Heap) :
    (Eval.frame f >>= g).run n h = (g (h.frames.getD f [])).run n h := rfl

theorem Eval.run_variable {h : Heap} {f : Ref} {x : Variable} {v : Value}
    (hv : h.current f x = some v) (n : Nat) {fault : Fault} :
    (do
      match (← Eval.frame f).get? x with
      | some v => return v
      | none => Eval.fault fault : Eval Value).run n h = .ok v h := by
  unfold Heap.current at hv
  rw [run_frame_bind, hv]
  rfl

/-- The variable of a local scope is read from the innermost scope that binds the name. -/
theorem Scope.localValue_current {i : Nat} {own : LocalScope}
    (hi : s.locals.findIdx? (fun own => own.bound.contains id) = some i)
    (hown : s.locals[i]? = some own) {n : Nat} {h : Heap} {v : Value}
    (hv : h.current own.frame (.own id) = some v) : (s.localValue id).run n h = .ok v h := by
  unfold localValue
  rw [hi]
  dsimp only
  rw [hown]
  exact Eval.run_variable hv n

theorem any_active_of_find? {locals : List LocalScope} {own : LocalScope}
    (h : locals.find? (fun own => own.active.contains id) = some own) :
    locals.any (fun own => own.active.contains id) = true :=
  List.any_eq_true.mpr ⟨own, List.mem_of_find?_eq_some h, by simpa using List.find?_some h⟩

theorem any_active_of_find?_none {locals : List LocalScope}
    (h : locals.find? (fun own => own.active.contains id) = none) :
    locals.any (fun own => own.active.contains id) = false :=
  List.any_eq_false.mpr fun own hmem => List.find?_eq_none.mp h own hmem

variable {env : Environment} {t : Template} (hplace : t.IsPlace env s.loops s.context id)

include hplace

/-- The variable that a name means at a place is what is looked up there. -/
theorem Scope.lookup_bound {f : Ref} {x : Variable} (hbinder : s.binder? id = some (f, x))
    {n : Nat} {h : Heap} {v : Value} (hv : h.current f x = some v) :
    (s.lookup id).run n h = .ok v h := by
  unfold lookup
  rcases binder?_cases hbinder with ⟨own, hown, rfl, rfl⟩ | ⟨hnone, l, hl, rfl, rfl⟩
  · have hbound (own : LocalScope) (hmem : own ∈ s.locals) (hid : id ∈ own.active) :
        id ∈ own.bound :=
      hplace.active_bound own.shade (List.mem_map_of_mem hmem) hid
    obtain ⟨i, hi, hget⟩ := findIdx?_bound_of_find?_active hplace.inOrder hbound hown
    rw [any_active_of_find? hown, if_pos rfl]
    exact localValue_current hi hget hv
  · have hloop : s.loopOf? id = some l := by
      rw [loopOf?_eq fun hid => (hid ▸ hplace).binds_loop]
      exact hl
    rw [any_active_of_find?_none hnone, hloop]
    exact Eval.run_variable hv n

/-- Where a name means no variable, the render data is looked up. -/
theorem Scope.lookup_free (hbinder : s.binder? id = none) : s.lookup id = s.dataValue id := by
  unfold binder? at hbinder
  unfold lookup
  cases hown : s.locals.find? fun own => own.active.contains id with
  | some own =>
    rw [hown] at hbinder
    cases hbinder
  | none =>
    rw [hown] at hbinder
    have hloop : s.loopOf? id = none := by
      rw [loopOf?_eq fun hid => (hid ▸ hplace).binds_loop]
      exact Option.map_eq_none_iff.mp hbinder
    rw [any_active_of_find?_none hown, hloop]
    rfl

omit hplace in
/-- All that is visible in a scope that is ready has a value. -/
theorem Scope.Ready.current {frames : Array Frame} (hready : s.Ready frames)
    (hplace : t.IsPlace env s.loops s.context id) {f : Ref} {x : Variable}
    (hbinder : s.binder? id = some (f, x)) {h : Heap} (hg : Grows frames h.frames) :
    ∃ v, h.current f x = some v := by
  refine Option.isSome_iff_exists.mp (hg.assigned f x ?_)
  rcases binder?_cases hbinder with ⟨own, hown, rfl, rfl⟩ | ⟨-, l, hl, rfl, rfl⟩
  · have hactive : own.active.contains id = true := by simpa using List.find?_some hown
    exact (hready.locals own (List.mem_of_find?_eq_some hown) id
      (List.contains_iff_mem.mp hactive)).2
  · have hmem := List.mem_of_find?_eq_some hl
    refine hready.loops l hmem id ?_
    have hbinds := List.find?_some hl
    rcases Bool.or_eq_true_iff.mp hbinds with hnames | hid
    · exact .inl hnames
    · cases of_decide_eq_true hid
      exact hplace.binds_loop l hmem

end Lookup

/-- Both runs are the same. They come to old code, for data below `k`, and to the expressions of
templates in play, where variables are tracked if comprehension targets are names. -/
def Leeway.lexical (env : Environment) (t : Template) (k : Ref) : Leeway where
  modes mode mode' := mode = mode'
  allows tracked r _ loops context e := r < k ∧ tracked = false ∨
    ∃ u, t.InPlay env u ∧ u.Holds loops context e ∧ (tracked = true ↔ u.HasNameTargets)
  data d d' := d = d' ∧ k ≤ d.size
  offers := False
  lost _ _ := False
  size_eq h := congrArg Array.size h.1
  push x h := by
    refine ⟨congrArg (·.push x) h.1, Nat.le_trans h.2 ?_⟩
    rw [Array.size_push]
    exact Nat.le_succ _
  names h := by
    rcases h with ⟨-, h⟩ | ⟨u, -, hu, htracked⟩
    · cases h
    · exact htracked.mp rfl _ _ _ hu
  lost_inside h := h
  lost_told := told_of_never

section Lexical

variable {env : Environment} {t : Template} {k : Ref} {frames : Array Frame}

theorem lexical_isExact : (Leeway.lexical env t k).IsExact where
  tally := rfl
  modes h := h.symm
  data h := h.1.symm
  offers := id

/-- Wherever an evaluation comes to a name, its place says what is looked up. -/
theorem look_run {look : Scope → String → Eval Value} (hlook : Scope.IsLexical env t k look)
    {tracked : Bool} {s : Scope} {id : String}
    (hf : (Leeway.lexical env t k).Fits tracked frames s (.name id)) {h : Heap}
    (hg : Grows frames h.frames) (n : Nat) : (look s id).run n h = (s.lookup id).run n h := by
  by_cases hk : s.data < k
  · rw [hlook.earlier hk]
  · obtain ⟨u, hplay, hu, htracked⟩ := hf.allowed.resolve_left fun hold => hk hold.1
    have hlater : k ≤ s.data := Nat.le_of_not_lt hk
    by_cases hplace : t.IsPlace env s.loops s.context id
    · cases hbinder : s.binder? id with
      | none => rw [hlook.free hlater hplace hbinder, Scope.lookup_free hplace hbinder]
      | some meant =>
        obtain ⟨f, x⟩ := meant
        cases hv : h.current f x with
        | some v =>
          rw [hlook.bound hlater hplace hbinder n h v hv, Scope.lookup_bound hplace hbinder hv]
        | none =>
          by_cases hnames : u.HasNameTargets
          · -- here all variables are tracked, so this one has a value
            have hready := hf.ready (htracked.mpr hnames)
            obtain ⟨v, hcurrent⟩ := hready.current hplace hbinder hg
            cases hv.symm.trans hcurrent
          · exact hlook.shared hplace hplay hnames hu hbinder n h hv
    · rw [hlook.uncovered hplace hplay hu]

theorem lexical_meets {look : Scope → String → Eval Value}
    (hlook : Scope.IsLexical env t k look) :
    (Leeway.lexical env t k).Meets look Scope.lookup where
  name hs hf := by
    rename_i tracked frames s s' id
    intro n h h' ht hg
    rw [look_run hlook hf hg]
    refine lookup_twin hs id nofun (fun _ _ => ?_) n h h' ht hg
    obtain @⟨mode, loops, hmode, hloops⟩ := hs
    cases hmode
    cases hloops
    intro n h h' ht hg
    cases ht.eq_of_exact lexical_isExact
    exact dataValue_joined ht rfl n
  member v label hmode := by
    cases hmode
    exact member_alike _ v label

theorem lookup_isLexical : Scope.IsLexical env t k Scope.lookup where
  bound _ hplace hbinder _ _ _ hv := Scope.lookup_bound hplace hbinder hv
  free _ hplace hbinder := Scope.lookup_free hplace hbinder
  uncovered _ _ _ := rfl
  shared _ _ _ _ _ _ _ _ := rfl
  earlier _ := rfl

/-- A world whose code is all for render data of its own is its own twin. -/
theorem World.Twin.of_lexical {w : World} (hclosed : w.heap.IsClosed) :
    w.Twin (.lexical env t w.heap.data.size) w := by
  refine ⟨⟨rfl, fun r c c' hc hc' => ?_, rfl, ⟨rfl, Nat.le_refl _⟩⟩, rfl, rfl⟩
  cases hc.symm.trans hc'
  have hold := hclosed c (Array.mem_of_getElem? hc)
  exact .of_allowed (fun _ => rfl) nofun fun s hs _ _ =>
    .inl ⟨hold s.data (Cell.data?_of_scope? hs), rfl⟩

theorem lexical_coupled {look : Scope → String → Eval Value}
    (hlook : Scope.IsLexical env t k look) : Render.Coupled (.lexical env t k) env env.lenient
      (fun r u => k ≤ r ∧ t.InPlay env u) (Evaluator.runBy look Evaluator.deepestStep)
      Evaluator.standard := by
  have hpaired (look : Scope → String → Eval Value) (hlook : Scope.IsLexical env t k look) :
      (Evaluator.runBy look Evaluator.deepestStep).Paired (.lexical env t k)
        Evaluator.standard := by
    unfold Evaluator.standard
    rw [← Evaluator.runBy_lookup]
    exact Evaluator.runBy_paired (lexical_meets hlook) _
  have hstandard := hpaired Scope.lookup lookup_isLexical
  rw [Evaluator.runBy_lookup] at hstandard
  refine ⟨rfl, hpaired look hlook, hstandard, fun {r u} hmay => ?_,
    fun hmay _ hload => ⟨hmay.1, .loaded hload⟩, fun hd hload => ⟨hd.2, .loaded hload⟩⟩
  by_cases hnames : u.HasNameTargets
  · exact ⟨true, fun _ _ loops context e he => .inr ⟨u, hmay.2, he, iff_of_true rfl hnames⟩⟩
  · exact ⟨false, fun _ _ loops context e he => .inr ⟨u, hmay.2, he, iff_of_false nofun hnames⟩⟩

end Lexical

theorem renderBy_lexical (env : Environment) (t : Template) (data : Value) (more : Bindings)
    {w : World} (hclosed : w.heap.IsClosed) {look : Scope → String → Eval Value}
    (hlook : Scope.IsLexical env t w.heap.data.size look) :
    (t.renderBy (Evaluator.runBy look Evaluator.deepestStep) env data more).run w =
      (t.render env data more).run w := by
  have halike : Alike (.lexical env t w.heap.data.size) Same w.heap.frames _ _ :=
    Render.renderBy_alike (lexical_coupled hlook) (.told (t := t) rfl)
      (fun hd => ⟨hd.2, .self⟩) data more
  have hmet := halike w w (.of_lexical hclosed) (.refl _)
  rcases hmet.eq_or_lost lexical_isExact with heq | ⟨_, _, -, _, _, hlost, -⟩
  · exact heq
  · exact hlost.elim

/-- Whatever rule for names goes by their places, a render by it is the render; and the loops
around an expression never share a variable, so an inner one leaves what an outer one means. -/
theorem names_mean_lexical_binders (env : Environment) (t : Template) (data : Value)
    (more : Bindings) {w : World} (hclosed : w.heap.IsClosed)
    {look : Scope → String → Eval Value}
    (hlook : Scope.IsLexical env t w.heap.data.size look) :
    (t.renderBy (Evaluator.runBy look Evaluator.deepestStep) env data more).run w =
        (t.render env data more).run w ∧
      ∀ (u : Template) loops context e, u.IsRead → u.Holds loops context e →
        (loops.map (·.position)).Nodup :=
  ⟨renderBy_lexical env t data more hclosed hlook, fun _ _ _ _ hread he => hread.loops_apart he⟩

/-- The rule that knows nothing but binders; what has no value is undefined. -/
def Scope.lexical (s : Scope) (id : String) : Eval Value :=
  match s.binder? id with
  | some (f, x) => do return ((← Eval.frame f).get? x).getD .undefined
  | none => s.dataValue id

/-- Where all templates are covered, binders are all there is to know of names. -/
theorem lexical_isLexical {env : Environment} {t : Template}
    (hnames : ∀ u, t.InPlay env u → u.HasNameTargets)
    (horder : ∀ u, t.InPlay env u → ∀ loops context id, u.Holds loops context (.name id) →
      Shade.InOrder id context) : Scope.IsLexical env t 0 Scope.lexical where
  bound {s id f x} _ hplace hbinder n h v hv := by
    unfold Scope.lexical
    rw [hbinder]
    change EStateM.Result.ok ((h.current f x).getD .undefined) h = _
    rw [hv]
    rfl
  free _ hplace hbinder := by
    unfold Scope.lexical
    rw [hbinder]
  uncovered hnot hplay hu :=
    absurd ⟨_, hplay, hnames _ hplay, hu, horder _ hplay _ _ _ hu⟩ hnot
  shared _ hplay hnot _ _ _ _ _ := absurd (hnames _ hplay) hnot
  earlier hlt := absurd hlt (Nat.not_lt_zero _)

/-- Its comprehension targets are names, and if it is a name it is in order. -/
structure Expr.IsCovered (context : List Shade) (e : Expr) : Prop where
  names : e.HasNameTargets
  order : ∀ id, e = .name id → Shade.InOrder id context

theorem Expr.isCovered_of_name {id : String} {context context' : List Shade} {e : Expr}
    (h : Expr.Holds context (.name id) context' e) (horder : Shade.InOrder id context) :
    e.IsCovered context' := by
  cases h with
  | self =>
    refine ⟨nofun, fun id' hid => ?_⟩
    cases hid
    exact horder
  | part hp _ => cases hp
  | clause hc _ _ => cases hc

/-- The variable of the comprehension hides the name it goes through, but not in its source. -/
def Expr.hidingList : Expr :=
  .collect .list (.name "x") [⟨.name "x", .name "x", [], false⟩]

def Expr.hidingCall : Expr :=
  .call (.lambda ⟨[], ["x"], none, [], none, []⟩ (.name "x")) [.name "xs"] []

theorem Expr.isCovered_of_hidingList {context : List Shade} {e : Expr}
    (h : Expr.Holds [] .hidingList context e) : e.IsCovered context := by
  cases h with
  | self =>
    refine ⟨fun product clauses hc c hmem => ?_, nofun⟩
    cases hc
    cases List.mem_singleton.mp hmem
    rfl
  | part hp h =>
    cases List.mem_singleton.mp hp
    exact isCovered_of_name h trivial
  | clause hc hp h =>
    cases hc
    cases hp with
    | product he =>
      cases List.mem_singleton.mp he
      exact isCovered_of_name h (.inl List.mem_cons_self)
    | source hc => cases hc
    | @condition i c _ hc he =>
      cases List.mem_singleton.mp (List.mem_of_getElem? hc)
      cases he
    | @target i c _ hc he =>
      cases List.mem_singleton.mp (List.mem_of_getElem? hc)
      cases he

theorem Expr.isCovered_of_hidingCall {context : List Shade} {e : Expr}
    (h : Expr.Holds [] .hidingCall context e) : e.IsCovered context := by
  cases h with
  | self => exact ⟨nofun, nofun⟩
  | part hp h =>
    rcases List.mem_cons.mp hp with rfl | hp
    · cases h with
      | self => exact ⟨nofun, nofun⟩
      | part hp _ => cases hp
      | body h => exact isCovered_of_name h (.inl List.mem_cons_self)
      | clause hc _ _ => cases hc
    · cases List.mem_singleton.mp hp
      exact isCovered_of_name h trivial
  | clause hc _ _ => cases hc

/-- A loop whose target hides a name inside but not behind it, around a comprehension and an
anonymous function that hide the same name again. -/
def Template.hidingPage : Template where
  source := ⟨"@foreach(x in xs)\x7b\x7b [x for x in x] \x7d\x7d" ++
    "\x7b\x7b (lambda x: x)(xs) \x7d\x7d@endforeach\x7b\x7b x \x7d\x7d", none, none⟩
  tree := .page
    [.loop ⟨1, 1⟩ .foreach ⟨⟨1, 10⟩, "x", .name "x"⟩ ⟨⟨1, 15⟩, "xs", .name "xs"⟩
      [.output ⟨1, 18⟩ ⟨⟨1, 21⟩, "[x for x in x]", .hidingList⟩ true,
        .output ⟨1, 38⟩ ⟨⟨1, 41⟩, "(lambda x: x)(xs)", .hidingCall⟩ true],
      .output ⟨1, 72⟩ ⟨⟨1, 75⟩, "x", .name "x"⟩ true]
  lenient := false

theorem Template.hidingPage_isCovered {loops : List LoopScope} {context : List Shade} {e : Expr}
    (h : hidingPage.Holds loops context e) : e.IsCovered context := by
  obtain ⟨ns, hns, whole, hw, he⟩ := h
  cases List.mem_singleton.mp hns
  cases hw with
  | shown h =>
    obtain ⟨-, rfl, -⟩ : _ ∧ _ = _ ∧ _ := by simpa using h
    exact Expr.isCovered_of_name he trivial
  | source h =>
    obtain ⟨-, -, -, rfl, -⟩ : _ ∧ _ ∧ _ ∧ _ = _ ∧ _ := by simpa using h
    exact Expr.isCovered_of_name he trivial
  | target h hload =>
    obtain ⟨-, -, rfl, -, -⟩ : _ ∧ _ ∧ _ = _ ∧ _ ∧ _ := by simpa using h
    cases hload
  | pass h hbody =>
    obtain ⟨-, -, -, -, rfl⟩ : _ ∧ _ ∧ _ ∧ _ ∧ _ = _ := by simpa using h
    cases hbody with
    | shown h =>
      rcases (by simpa using h : _ ∨ _) with ⟨-, rfl, -⟩ | ⟨-, rfl, -⟩
      · exact Expr.isCovered_of_hidingList he
      · exact Expr.isCovered_of_hidingCall he
    | _ h => simp at h
  | _ h => simp at h

/-- The loop goes through one pair. -/
def hidingData : Bindings := [("xs", .tuple [.tuple [.int 1, .int 2]]), ("x", .str "out")]

theorem hiding_goes_by_binders :
    World.fresh.heap.IsClosed ∧
      Scope.IsLexical .bare .hidingPage World.fresh.heap.data.size Scope.lexical ∧
      (Template.hidingPage.renderBy (Evaluator.runBy Scope.lexical Evaluator.deepestStep) .bare
        .none hidingData).run .fresh = (Template.hidingPage.render .bare .none hidingData).run
          .fresh ∧
      ((Template.hidingPage.render .bare .none hidingData).value? .fresh).map Output.text =
        some "[1, 2]((1, 2),)out" := by
  have hclosed : World.fresh.heap.IsClosed := fun c hc => absurd hc (Array.not_mem_empty c)
  have hplay (u : Template) (hu : Template.InPlay .bare .hidingPage u) : u = .hidingPage := by
    cases hu with
    | loaded hload => cases hload
    | self => rfl
  have hlook : Scope.IsLexical .bare .hidingPage 0 Scope.lexical := by
    refine lexical_isLexical (fun u hu loops context e he => ?_) fun u hu loops context id he => ?_
    · cases hplay u hu
      exact (Template.hidingPage_isCovered he).names
    · cases hplay u hu
      exact (Template.hidingPage_isCovered he).order id rfl
  exact ⟨hclosed, hlook, (names_mean_lexical_binders .bare .hidingPage .none hidingData hclosed
    hlook).1, by decide +kernel⟩

end Stencil
