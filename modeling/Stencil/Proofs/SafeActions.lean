import Stencil.Proofs.Loading
import Stencil.Proofs.SafeExpressions

/-!
# Safe actions

An action is safe if it leads a sound heap to a sound one and delivers what fits there, however it
ends. Evaluations that are safe make safe actions, and so does loading a template, as far as its
source is not found by code.
-/

namespace Stencil

namespace Loader

mutual

def references : Loader → List (CellKind × Ref)
  | .files _ | .table _ | .shouting => []
  | .choice loaders => referencesOf loaders
  | .lookup views => refs views
  | .callback f => refs f
  | .custom v => refs v

def referencesOf : List Loader → List (CellKind × Ref)
  | [] => []
  | l :: ls => references l ++ referencesOf ls

end

theorem referencesOf_eq (ls : List Loader) : referencesOf ls = ls.flatMap references := by
  induction ls with
  | nil => rfl
  | cons l ls ih => rw [referencesOf, ih, List.flatMap_cons]

end Loader

instance : Refers Loader := ⟨Loader.references⟩
instance : Refers Loaded := ⟨fun l => refs l.filename⟩
instance : Refers Template := ⟨fun _ => []⟩
instance : Refers Boundary := ⟨fun _ => []⟩
instance : Refers Piece := ⟨fun _ => []⟩
instance : Refers Environment :=
  ⟨fun env => refs env.loader ++ (refs env.globals ++ refs env.shared)⟩

variable {α β : Type} [Refers α] [Refers β] {l : Licence} {h : Heap} {w : World}

@[simp] theorem suits_choice {loaders : List Loader} :
    Suits h (Loader.choice loaders) ↔ Suits h loaders := by
  unfold Suits
  change (∀ x ∈ Loader.referencesOf loaders, _) ↔ _
  rw [Loader.referencesOf_eq]
  exact Iff.rfl

theorem suits_template (t : Template) : Suits h t := fun _ hx => nomatch hx

theorem suits_output (out : Output) : Suits h out :=
  suits_array_iff.mpr fun _ _ _ hx => nomatch hx

/-- A heap was led to a sound one, and what is delivered fits there. -/
inductive Licence.Closes (l : Licence) (h : Heap) : EStateM.Result Stop World α → Prop
  | ok {a : α} {w : World} (hl : l.Leads h w.heap) (hs : w.heap.IsSound) (ha : Suits w.heap a) :
      Closes l h (.ok a w)
  | error {s : Stop} {w : World} (hl : l.Leads h w.heap) (hs : w.heap.IsSound) :
      Closes l h (.error s w)

theorem Licence.Closes.after {h' : Heap} {r : EStateM.Result Stop World α} (hr : l.Closes h' r)
    (hl : l.Leads h h') : l.Closes h r := by
  cases hr with
  | ok hl' hs ha => exact .ok (hl.trans hl') hs ha
  | error hl' hs => exact .error (hl.trans hl') hs

namespace Action

/-- From a sound heap the action ends well or stops in a sound heap that it leads to. -/
def IsSafe (l : Licence) (w : World) (x : Action α) : Prop :=
  w.heap.IsSound → l.Leads l.start w.heap → l.Closes w.heap (x.run w)

namespace IsSafe

variable {x : Action α} {k : α → Action β}

theorem of_led (hx : l.Leads l.start w.heap → IsSafe l w x) : IsSafe l w x :=
  fun hs hled => hx hled hs hled

theorem pure {a : α} (ha : Suits w.heap a) : IsSafe l w (Pure.pure a) :=
  fun hs _ => .ok (.refl l _) hs ha

theorem throw (s : Stop) : IsSafe l w (MonadExcept.throw s : Action α) :=
  fun hs _ => .error (.refl l _) hs

theorem fault (f : Fault) : IsSafe l w (Action.fault f : Action α) := throw _

theorem bind (hx : IsSafe l w x)
    (hk : ∀ {w' : World} {a : α}, l.Leads w.heap w'.heap → Suits w'.heap a → IsSafe l w' (k a)) :
    IsSafe l w (x >>= k) := by
  intro hs hled
  have hr := hx hs hled
  rw [EStateM.run_bind]
  generalize x.run w = r at hr ⊢
  cases hr with
  | ok hl hs' ha => exact (hk hl ha hs' (hled.trans hl)).after hl
  | error hl hs' => exact .error hl hs'

theorem heap {k : Heap → Action β} (hk : w.heap.IsSound → IsSafe l w (k w.heap)) :
    IsSafe l w (Action.heap >>= k) := fun hs hled => hk hs hs hled

theorem get {k : World → Action β} (hk : IsSafe l w (k w)) :
    IsSafe l w (MonadState.get >>= k) := fun hs hled => hk hs hled

theorem ofExcept {e : Except Fault α} (he : ∀ {a}, e = .ok a → Suits w.heap a) :
    IsSafe l w (Action.ofExcept e) := by
  cases e with
  | ok a => exact pure (he rfl)
  | error f => exact fault f

theorem orReject {e : Except TemplateError α} (he : ∀ {a}, e = .ok a → Suits w.heap a) :
    IsSafe l w (Action.orReject e) := by
  cases e with
  | ok a => exact pure (he rfl)
  | error e => exact throw _

theorem ofFailure {e : Except Failure α} (he : ∀ {a}, e = .ok a → Suits w.heap a) :
    IsSafe l w (Loader.ofFailure e) := by
  cases e with
  | ok a => exact pure (he rfl)
  | error f => exact throw _

theorem evaluateUnder {e : Eval α} (calls : Nat) (he : Safe l w.heap e) :
    IsSafe l w (Action.evaluateUnder calls e) := by
  intro hs hled
  have hr := he hs hled calls
  change l.Closes w.heap (Action.evaluateUnder calls e w)
  unfold Action.evaluateUnder
  generalize e.run calls w.heap = r at hr ⊢
  cases hr with
  | ok hl hs' ha => exact .ok hl hs' ha
  | error hl hs' _ => exact .error hl hs'

theorem aside {f : World → World} (hf : (f w).heap = w.heap) :
    IsSafe l w (modify f : Action Unit) := by
  intro hs _
  change l.Closes w.heap (.ok () (f w))
  refine .ok ?_ (hf ▸ hs) (suits_unit _)
  rw [hf]
  exact .refl l _

theorem markLine (line : Nat) : IsSafe l w (Action.markLine line) := aside rfl

theorem notice (n : Notice) : IsSafe l w (Action.notice n) := aside rfl

theorem here : IsSafe l w Action.here := by
  intro hs _
  unfold Action.here
  cases hb : w.boundary with
  | some b =>
    simp only [EStateM.run_bind, EStateM.run_get, hb, EStateM.run_pure]
    exact .ok (.refl l _) hs fun _ hx => nomatch hx
  | none =>
    simp only [EStateM.run_bind, EStateM.run_get, hb]
    exact .error (.refl l _) hs

theorem within (b : Boundary) (hx : IsSafe l { w with boundary := some b } x) :
    IsSafe l w (Action.within b x) := by
  intro hs hled
  have hr := hx hs hled
  change l.Closes w.heap (Action.within b x w)
  unfold Action.within
  generalize x.run { w with boundary := some b } = r at hr ⊢
  cases hr with
  | ok hl hs' ha => exact .ok hl hs' ha
  | error hl hs' => exact .error hl hs'

theorem tryCatch {k : Stop → Action α} (hx : IsSafe l w x)
    (hk : ∀ {w' : World} (s : Stop), l.Leads w.heap w'.heap → IsSafe l w' (k s)) :
    IsSafe l w (MonadExcept.tryCatch x k) := by
  intro hs hled
  have hr := hx hs hled
  change l.Closes w.heap (EStateM.tryCatch x k w)
  unfold EStateM.tryCatch
  change l.Closes w.heap (x w) at hr
  generalize x w = r at hr ⊢
  cases hr with
  | ok hl hs' ha => exact .ok hl hs' ha
  | error hl hs' => exact (hk _ hl hs' (hled.trans hl)).after hl

theorem forM {ε : Type} {es : List ε} {k : ε → Action PUnit}
    (hk : ∀ {w' : World} (e : ε), IsSafe l w' (k e)) : IsSafe l w (es.forM k) := by
  induction es generalizing w with
  | nil => exact pure (suits_unit _)
  | cons e es ih => exact bind (hk e) fun _ _ => ih

end IsSafe

end Action

namespace Loader

open Stencil.Action (IsSafe)

theorem ofAnswer_suits {name : String} {v : Value} (hv : Suits h v) {found : Loaded}
    (hr : ofAnswer name v = .ok found) : Suits h found := by
  unfold ofAnswer at hr
  split at hr
  · cases hr
  · cases hr
    exact suits_strValue _
  · cases hr
    have hitems := (suits_tupleValue _).mp hv
    exact (suits_cons.mp (suits_cons.mp hitems).2).1
  · cases hr

theorem files_suits {l : FileLoader} {tree : FileTree} {name : String} {found : Loaded}
    (hr : l.find tree name = .ok found) : Suits h found := by
  have hproper := files_proper l tree name
  rw [hr] at hproper
  rcases hproper with ⟨s, hs⟩ | hnone
  · exact suits_of_isEmpty (congrArg Value.references hs)
  · exact suits_of_isEmpty (congrArg Value.references hnone)

variable {ev : Evaluator}

theorem fromObject_safe (hev : ev.IsSafe l) {v : Value} (hv : Suits h v) (name : String) :
    Safe l h (fromObject ev v name) := by
  refine .get fun hs => .compute fun hf => ?_
  have hargs {h' : Heap} : Suits h' [Value.str name] := suits_cons.mpr ⟨suits_strValue _, suits_nil⟩
  refine .bind (hev.call (ownAttribute_suits hs hv hf) hargs suits_nil) fun _ hanswer => ?_
  refine .bind (Safe.unpackExactly hev hanswer 2) fun {_ items} _ hitems => ?_
  split
  · exact .pure (suits_cons.mp (suits_cons.mp hitems).2).1
  · exact .fault _

variable (calls : Nat) (tree : FileTree) (name : String)

mutual

theorem find_safe (hev : ev.IsSafe l) : ∀ (loader : Loader) {w : World}, Suits w.heap loader →
    IsSafe l w (loader.find ev calls tree name)
  | .files l, w, _ => by
    unfold find
    exact .ofFailure files_suits
  | .table templates, w, _ => by
    unfold find
    split
    · exact .pure (suits_of_isEmpty rfl)
    · exact .throw _
  | .choice loaders, w, hfits => by
    unfold find
    exact findFirst_safe hev loaders.length [] loaders (suits_choice.mp hfits)
  | .lookup views, w, hfits => by
    unfold find
    refine .ofFailure fun hr => ofAnswer_suits ?_ hr
    cases hview : views.get? name with
    | none => exact suits_noneValue
    | some v => exact lookup_suits hfits hview
  | .callback f, w, hfits => by
    unfold find
    have hargs : Suits w.heap [Value.str name] := suits_cons.mpr ⟨suits_strValue _, suits_nil⟩
    exact .bind (.evaluateUnder calls (hev.call hfits hargs suits_nil)) fun _ hanswer =>
      .ofFailure fun hr => ofAnswer_suits hanswer hr
  | .shouting, w, _ => by
    unfold find
    exact .pure (suits_of_isEmpty rfl)
  | .custom v, w, hfits => by
    unfold find
    exact .evaluateUnder calls (fromObject_safe hev hfits name)

theorem findFirst_safe (hev : ev.IsSafe l) (count : Nat) (misses : List String) :
    ∀ (loaders : List Loader) {w : World}, Suits w.heap loaders →
    IsSafe l w (findFirst ev calls tree name count misses loaders)
  | [], w, _ => by
    unfold findFirst
    exact .throw _
  | loader :: loaders, w, hfits => by
    unfold findFirst
    obtain ⟨hfirst, hrest⟩ := suits_cons.mp hfits
    refine .tryCatch (find_safe hev loader hfirst) fun s hl => ?_
    split
    · exact findFirst_safe hev _ _ loaders (hrest.after hl)
    · exact .throw _

end

end Loader

theorem Template.compile_safe (s : Source) (lenient : Bool) :
    Action.IsSafe l w (Template.compile s lenient) := by
  unfold Template.compile
  split
  · exact .throw _
  · refine .bind (.forM fun _ => .notice _) fun _ _ => ?_
    split
    · exact .fault _
    · exact .bind (.notice _) fun _ _ => .pure (suits_template _)

namespace Environment

theorem compileSource_safe (env : Environment) (s : Source) :
    Action.IsSafe l w (env.compileSource s) := by
  unfold compileSource
  split
  · exact .fault _
  · exact Template.compile_safe _ _

def LoadsSafely (env : Environment) (l : Licence) : Prop :=
  ∀ {w : World} (calls : Nat) (name : String), Suits w.heap env →
    Action.IsSafe l w (env.loadUnder calls name)

variable {env : Environment}

theorem compileLoaded_safe (name : String) (found : Loaded) :
    Action.IsSafe l w (env.compileLoaded name found) := by
  unfold compileLoaded
  split
  · exact compileSource_safe env _
  · refine .heap fun _ => ?_
    split
    · exact .bind (compileSource_safe env _) fun _ _ => .fault _
    · exact compileSource_safe env _

theorem loadsSafely_of_moves (hl : ∀ r, l.moves r) : env.LoadsSafely l := by
  intro w calls name hfits
  unfold loadUnder
  split
  · exact .throw _
  · rename_i loader hloader
    have hfound : Suits w.heap loader := fun x hx =>
      hfits x (List.mem_append_left _ (hloader ▸ List.mem_append_left _ hx))
    exact .bind (Loader.find_safe calls env.files name (Evaluator.standard_isSafe hl) loader hfound)
      fun _ _ => compileLoaded_safe name _

end Environment

end Stencil
