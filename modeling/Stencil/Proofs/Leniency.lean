import Stencil.Environment
import Stencil.Proofs.TwinRenders

/-!
# Leniency

Leniently, a name that the render data lacks and an attribute that a value lacks are undefined
values. Wherever a strict evaluation is not stopped for one of the two, a lenient one does the
very same, so a lenient render differs from a strict one only behind such a stop. One more stop
of strict renders is of this kind: the names to offer for a missing one cannot be gathered where
the render data has a key that has no length, and the complaint is about that key.
-/

namespace Stencil

def Halt.Strict (data : Array RenderData) : Halt → Prop
  | .undefinedName _ _ => True
  | .fault f =>
    f.kind = .missingAttribute ∨
      ∃ d ∈ data, ∃ k ∈ d.otherKeys, Builtins.lengthFault? k = some f
  | .outOfSteps => False

theorem Halt.Strict.kind {data : Array RenderData} {f : Fault} (h : (Halt.fault f).Strict data) :
    f.kind ∈ [.missingAttribute, .type, .overflow] := by
  rcases h with h | ⟨d, -, k, -, h⟩
  · rw [h]
    exact List.mem_cons_self
  · rcases Builtins.lengthFault?_cases h with rfl | rfl
    · exact List.mem_cons_of_mem _ List.mem_cons_self
    · exact List.mem_cons_of_mem _ (List.mem_cons_of_mem _ List.mem_cons_self)

theorem Halt.Strict.told {data : Array RenderData} {f : Fault} (h : (Halt.fault f).Strict data) :
    f.inWriting? = none :=
  Fault.inWriting?_of_kind fun hkey => by simpa [hkey] using h.kind

theorem Halt.Strict.insideGenerator {data : Array RenderData} {f : Fault}
    (h : (Halt.fault f).Strict data) : (Halt.fault (Evaluator.insideGenerator f)).Strict data := by
  have hkind : f.kind ≠ .stopIteration := fun hstop => by simpa [hstop] using h.kind
  unfold Evaluator.insideGenerator
  rw [if_neg hkind]
  exact h

/-- The first run may be strict where the second is lenient, and may be given up where only
strict evaluation halts. -/
def Leeway.lenience : Leeway where
  modes mode mode' := mode = mode' ∨ mode = false ∧ mode' = true
  allows tracked _ _ _ _ _ := tracked = false
  data d d' := d = d'
  offers := False
  lost := Halt.Strict
  size_eq := congrArg Array.size
  push x h := congrArg (·.push x) h
  names := names_of_untracked
  lost_inside h := h.insideGenerator
  lost_told h := h.told

theorem dataValue_lenience {s s' : Scope} {frames : Array Frame} (hs : s.Twin .lenience s')
    (id : String) : Twin .lenience Same frames (s.dataValue id) (s'.dataValue id) := by
  obtain @⟨mode, loops, hmode, hloops⟩ := hs
  cases hloops
  intro n h h' ht hg
  have hdata : h'.data = h.data := Eq.symm ht.data
  rcases hmode with rfl | ⟨hstrict, rfl⟩
  · exact dataValue_joined ht (by rw [hdata]) n
  rw [Scope.dataValue_run, Scope.dataValue_run, hdata]
  unfold Scope.dataAnswer
  dsimp only
  generalize hd : h.data.getD s.data default = d
  cases d.names.get? id with
  | some v => exact .ok ht (.refl _) rfl
  | none =>
    rw [hstrict]
    cases hlength : d.otherKeys.findSome? Builtins.lengthFault? with
    | none => exact .lost trivial
    | some f =>
      obtain ⟨k, hk, hlength⟩ := List.exists_of_findSome?_eq_some hlength
      have hmem : d ∈ h.data := by
        by_cases hlt : s.data < h.data.size
        · rw [Array.getD_eq_getD_getElem?, Array.getElem?_eq_getElem hlt] at hd
          exact hd ▸ Array.getElem_mem hlt
        · rw [Array.getD_eq_getD_getElem?, Array.getElem?_eq_none (Nat.le_of_not_lt hlt)] at hd
          subst hd
          cases hk
      exact .lost (.inr ⟨d, hmem, k, hk, hlength⟩)

theorem Eval.run_get_bind {α : Type} (g : Heap → Eval α) (n : Nat) (h : Heap) :
    (get >>= g : Eval α).run n h = (g h).run n h := rfl

/-- An undefined value has every attribute, as a value or as an item. -/
theorem member_undefined (label : String) (n : Nat) (h : Heap) :
    (Value.member .undefined label).run n h = .ok .undefined h := by
  have hproperty : Value.property? h .undefined label =
      if "__".isPrefixOf label then none else some (.ok .undefined) := rfl
  unfold Value.member
  rw [Eval.run_get_bind]
  dsimp only
  unfold Value.ownAttribute
  rw [hproperty]
  by_cases hp : "__".isPrefixOf label = true
  · rw [if_pos hp]
    rfl
  · rw [if_neg hp]
    rfl

/-- A strict attribute either has the value it has leniently or is missing. -/
theorem member_lenience {frames : Array Frame} (v : Value) (label : String) :
    Twin .lenience Same frames (Value.member v label) (Value.memberLenient v label) := by
  intro n h h' ht hg
  have hr := member_plain v label .lenience n h h' ht
  unfold Value.memberLenient
  split
  · exact .lost (.inl rfl)
  · rw [member_undefined]
    exact .ok ht (.refl _) rfl
  · change Joined .lenience Same h.frames ((Value.member _ label).run n h)
      (Eval.handled ((Value.member _ label).run n h') _)
    generalize (Value.member _ label).run n h = r, (Value.member _ label).run n h' = r' at hr ⊢
    cases hr with
    | ok w ht' hg' => exact .ok ht' hg' rfl
    | error halt ht' hg' =>
      unfold Eval.handled
      dsimp only
      split
      · exact .error ht' hg' (.same _)
      · cases halt with
        | fault f =>
          dsimp only
          split
          · rename_i hmissing
            exact .lost (.inl hmissing)
          · exact .error ht' hg' (.same _)
        | undefinedName name available => exact .error ht' hg' (.same _)
        | outOfSteps => exact .error ht' hg' (.same _)

theorem lenience_meets : Leeway.lenience.Meets Scope.lookup Scope.lookup where
  name hs _ := lookup_twin hs _ nofun fun _ _ => dataValue_lenience hs _
  member v label hmode := by
    rcases hmode with rfl | ⟨rfl, rfl⟩
    · exact member_alike _ v label
    · exact member_lenience v label

theorem World.Twin.of_lenience (w : World) : w.Twin .lenience w := by
  refine ⟨⟨rfl, fun r c c' hc hc' => ?_, rfl, rfl⟩, rfl, rfl⟩
  cases hc.symm.trans hc'
  exact .of_allowed (fun _ => .inl rfl) nofun fun _ _ _ _ => rfl

theorem lenience_coupled (env : Environment) : Render.Coupled .lenience env true
    (fun _ _ => True) Evaluator.standard Evaluator.standard := by
  have hpaired : Evaluator.standard.Paired .lenience Evaluator.standard := by
    unfold Evaluator.standard
    rw [← Evaluator.runBy_lookup]
    exact Evaluator.runBy_paired lenience_meets _
  refine ⟨?_, hpaired, hpaired, fun _ => ⟨false, fun _ _ _ _ _ _ => rfl⟩, fun _ _ _ => trivial,
    fun _ _ => trivial⟩
  cases env.lenient with
  | true => exact .inl rfl
  | false => exact .inr ⟨rfl, rfl⟩

/-- What becomes of a render when missing names and attributes are let pass: the same, unless it
stopped at one of them, or at a key of the render data that has no length. -/
inductive Render.Outlasts : EStateM.Result Stop World Output →
    EStateM.Result Stop World Output → Prop
  | rendered (out : Output) (w w' : World) : Outlasts (.ok out w) (.ok out w')
  | stopped (s : Stop) (w w' : World) : Outlasts (.error s w) (.error s w')
  | missingName (name : String) (guess : Option String) (failure : RenderFailure) (w : World)
      (r : EStateM.Result Stop World Output) :
      Outlasts (.error (.failed (.template (.undefined name guess failure))) w) r
  | missingAttribute {message : String} {suggestion : Option String} {failure : RenderFailure}
      {f : Fault} (hcause : failure.cause = some f) (hf : f.kind = .missingAttribute) (w : World)
      (r : EStateM.Result Stop World Output) :
      Outlasts (.error (.failed (.template (.failed message suggestion failure))) w) r
  | keyWithoutLength {message : String} {suggestion : Option String} {failure : RenderFailure}
      {d : RenderData} {k : Value} {f : Fault} (hcause : failure.cause = some f)
      (hf : Builtins.lengthFault? k = some f) (hk : k ∈ d.otherKeys) {w : World} (hd : d ∈ w.heap.data)
      (r : EStateM.Result Stop World Output) :
      Outlasts (.error (.failed (.template (.failed message suggestion failure))) w) r

namespace Render.Outlasts

/-- Inside a boundary every fault becomes an error with it as its cause. -/
theorem of_lost {s : Stop} {w : World} (hs : s.Lost .lenience w.heap.data) (b : Boundary)
    (r : EStateM.Result Stop World Output) : Outlasts (.error (Action.reported b s) w) r := by
  obtain ⟨halt, b₀, hl, c, hreported⟩ := hs.reported b
  rw [hreported]
  cases halt with
  | undefinedName name available =>
    cases b₀ with
    | none => exact .missingName _ _ _ w r
    | some b₀ => exact .missingName _ _ _ w r
  | fault f =>
    change Outlasts (.error (Action.reported c (.failed (.fault f))) w) r
    rw [Action.reported_told c hl.told]
    rcases hl with hf | ⟨d, hd, k, hk, hf⟩
    · exact .missingAttribute rfl hf w r
    · exact .keyWithoutLength rfl hf hk hd r
  | outOfSteps => exact hl.elim

theorem within {x y : Action Output} {b : Boundary} {w w' : World}
    (h : Alike .lenience Same w.heap.frames x y) (hw : w.Twin .lenience w') :
    Outlasts ((Action.within b x).run w) ((Action.within b y).run w') := by
  have h := h { w with boundary := some b } { w' with boundary := some b }
    ⟨hw.heap, rfl, hw.notices⟩ (.refl _)
  change Outlasts (Action.within b x w) (Action.within b y w')
  unfold Action.within
  generalize x.run { w with boundary := some b } = r, y.run { w' with boundary := some b } = r'
    at h ⊢
  cases h with
  | ok hw hg hv =>
    cases hv
    exact .rendered _ _ _
  | error hw hg hs =>
    dsimp only
    rw [hw.boundary]
    cases hs with
    | same s => exact .stopped _ _ _
    | offered ho => exact ho.elim
  | @lost s w₁ r hl =>
    exact of_lost (w := { w₁ with boundary := w.boundary }) hl _ _

theorem after {α : Type} (x : Action α) {f g : α → Action Output} {w : World}
    (h : ∀ a w₁, Outlasts ((f a).run w₁) ((g a).run w₁)) :
    Outlasts ((x >>= f).run w) ((x >>= g).run w) := by
  rw [EStateM.run_bind, EStateM.run_bind]
  cases x.run w with
  | ok a w₁ => exact h a w₁
  | error s w₁ => exact .stopped s w₁ w₁

end Render.Outlasts

theorem Template.render_outlasts (t : Template) (env : Environment) (data : Value)
    (more : Bindings) (w : World) : Render.Outlasts ((t.render env data more).run w)
      ((({ t with lenient := true } : Template).render { env with lenient := true } data
        more).run w) := by
  refine .after (Template.renderData env data more) fun d w₁ => ?_
  refine .after (Action.evaluate (Eval.newData d)) fun r w₂ => ?_
  have hmode : Leeway.lenience.modes t.lenient true := by
    cases t.lenient with
    | true => exact .inl rfl
    | false => exact .inr ⟨rfl, rfl⟩
  have hpart : Alike .lenience Same w₂.heap.frames _ _ :=
    (Render.part_alike (lenience_coupled env) env.host.room).whole (r := r) .nil
      (.told hmode) trivial
  exact .within hpart (.of_lenience w₂)

theorem Template.compile_lenient (s : Source) (mode mode' : Bool) :
    Template.compile s mode' =
      (fun t => { t with lenient := mode' }) <$> Template.compile s mode := by
  unfold Template.compile
  cases s.tree with
  | error f => rfl
  | ok read =>
    obtain ⟨tree, warnings⟩ := read
    dsimp only
    rw [map_bind]
    refine congrArg _ (funext fun _ => ?_)
    cases checkFault? s tree with
    | some f => rfl
    | none =>
      rw [map_bind]
      rfl

theorem Environment.compileSource_lenient (env : Environment) (mode : Bool) (s : Source) :
    ({ env with lenient := mode } : Environment).compileSource s =
      (fun t => { t with lenient := mode }) <$> env.compileSource s := by
  unfold compileSource
  dsimp only
  cases env.host.breakdown? s with
  | some b => rfl
  | none => exact Template.compile_lenient s env.lenient mode

theorem Environment.compileLoaded_lenient (env : Environment) (mode : Bool) (name : String)
    (loaded : Loaded) : ({ env with lenient := mode } : Environment).compileLoaded name loaded =
      (fun t => { t with lenient := mode }) <$> env.compileLoaded name loaded := by
  unfold compileLoaded
  split
  · exact env.compileSource_lenient mode _
  · dsimp only
    rw [map_bind]
    refine congrArg _ (funext fun h => ?_)
    split
    · rw [map_bind, env.compileSource_lenient mode, bind_map_left]
      rfl
    · exact env.compileSource_lenient mode _

theorem Environment.loadUnder_lenient (env : Environment) (mode : Bool) (calls : Nat)
    (name : String) : ({ env with lenient := mode } : Environment).loadUnder calls name =
      (fun t => { t with lenient := mode }) <$> env.loadUnder calls name := by
  unfold loadUnder
  simp only [env.compileLoaded_lenient mode]
  cases env.loader with
  | none => rfl
  | some loader => exact (map_bind ..).symm

/-- Whatever the templates, globals, shared data and render data: where missing names and
attributes are let pass, a render gives the same text as one where they are not, and stops for
the same reason at the same place, except where the other one stopped at one of them, or at a key
of the render data that has no length. -/
theorem lenient_outlasts_strict (env : Environment) (data : Value) (more : Bindings) (w : World) :
    (∀ name, Render.Outlasts ((env.render name data more).run w)
      ((({ env with lenient := true } : Environment).render name data more).run w)) ∧
    ∀ source name, Render.Outlasts
      ((do (← env.compile source name).render env data more).run w)
      ((do
        let t ← ({ env with lenient := true } : Environment).compile source name
        t.render { env with lenient := true } data more).run w) := by
  constructor
  · intro name
    change Render.Outlasts ((env.loadUnder 0 name >>= _).run w)
      ((({ env with lenient := true } : Environment).loadUnder 0 name >>= _).run w)
    rw [env.loadUnder_lenient true, bind_map_left]
    exact .after _ fun t w₁ => t.render_outlasts env data more w₁
  · intro source name
    change Render.Outlasts ((env.compileSource _ >>= _).run w)
      ((({ env with lenient := true } : Environment).compileSource _ >>= _).run w)
    rw [env.compileSource_lenient true, bind_map_left]
    exact .after _ fun t w₁ => t.render_outlasts env data more w₁

/-- A partial lacks a name; the page gives it data under a key that is no text. -/
def numberedPages : Environment := .ofTable
  [("p", "\x7b\x7b missing \x7d\x7d"), ("page", "@include('p', \x7b1: 2\x7d)")]

def numberedFailure : RenderFailure where
  template := some "p"
  line := some 1
  cause := some (Builtins.noLength (.int 1))
  snippet := some ⟨[(1, "\x7b\x7b missing \x7d\x7d")], 1, none⟩
  stack := [⟨"page", 1⟩]

/-- The strict render stops neither at a missing name nor at a missing attribute; the lenient one
stops nowhere. -/
theorem numbered_key_stops_strictly :
    (numberedPages.render "page" .none []).stop? .fresh =
        some (.failed (.template (.failed "TypeError: object of type 'int' has no len()" none
          numberedFailure))) ∧
      numberedFailure.cause.map (·.kind) = some .type ∧
      ((({ numberedPages with lenient := true } : Environment).render "page" .none
        []).value? .fresh).map Output.text = some "" := by
  decide +kernel

end Stencil
