import Stencil.Proofs.Moments

/-!
# Where a stop is raised

What a construct does itself happens in one boundary. If it stops there, it is with a bare fault,
with a name that is missing in this boundary, or with an error that tells no line at all, such
as a template that cannot be found. Evaluation and loading are of this kind.
-/

namespace Stencil

variable {α β : Type}

/-- The record of where a render stopped, of errors that have one. -/
def TemplateError.failure? : TemplateError → Option RenderFailure
  | .failed _ _ f | .undefined _ _ f => some f
  | _ => none

def TemplateError.stack? : TemplateError → Option (List CallSite)
  | .tooDeep _ _ stack => some stack
  | e => e.failure?.map (·.stack)

theorem TemplateError.failure?_of_stack? {e : TemplateError} (h : e.stack? = none) :
    e.failure? = none := by
  cases e with
  | failed message suggestion f => cases h
  | undefined name guess f => cases h
  | _ => rfl

inductive Stop.RaisedIn (b : Option Boundary) : Stop → Prop
  | fault (f : Fault) : RaisedIn b (.failed (.fault f))
  | missing (name : String) (available : List String) :
      RaisedIn b (.failed (.template (undefinedAt b name available)))
  | unplaced {e : TemplateError} (he : e.stack? = none) : RaisedIn b (.failed (.template e))
  | outOfSteps : RaisedIn b .outOfSteps

/-- The boundary `b` allows for no template inside it, so `name` is not entered. -/
inductive Stop.TooDeepIn (b : Boundary) (name : String) : Stop → Prop
  | intro : TooDeepIn b name (.failed (.template (.tooDeep name b.limit b.sites)))

/-- The stop comes from the boundary `b`, be it that `name` may not be entered from there. -/
def Stop.RaisedBefore (name : String) (b : Option Boundary) (s : Stop) : Prop :=
  s.RaisedIn b ∨ ∃ here, b = some here ∧ s.TooDeepIn here name

theorem Refusal.raisedIn {name : String} {f : Failure} (h : Refusal name f)
    (b : Option Boundary) : Stop.RaisedIn b (.failed f) := by
  cases h with
  | missing message => exact .unplaced rfl
  | malformed he => exact .unplaced rfl
  | fault => exact .fault _

namespace Action

/-- The action never leaves the boundary it is done in, and stops as `P` says of this boundary. -/
structure Stays (P : Option Boundary → Stop → Prop) (x : Action α) : Prop where
  keeps : x.Keeps
  raises : ∀ {w s w'}, x.run w = .error s w' → w'.boundary = w.boundary ∧ P w.boundary s

theorem Stays.mono {P Q : Option Boundary → Stop → Prop} {x : Action α} (hx : Stays P x)
    (h : ∀ b s, P b s → Q b s) : Stays Q x where
  keeps := hx.keeps
  raises hrun := ⟨(hx.raises hrun).1, h _ _ (hx.raises hrun).2⟩

theorem Stays.bind {P : Option Boundary → Stop → Prop} {x : Action α} {f : α → Action β}
    (hx : Stays P x) (hf : ∀ a, Stays P (f a)) : Stays P (x >>= f) where
  keeps := hx.keeps.bind fun a => (hf a).keeps
  raises h := by
    rcases bind_error h with h | ⟨a, w₁, hrun, h⟩
    · exact hx.raises h
    · obtain ⟨hb, hs⟩ := (hf a).raises h
      rw [hx.keeps _ _ _ hrun] at hb hs
      exact ⟨hb, hs⟩

/-- Whatever stops the action comes from the boundary it is done in. -/
abbrev IsLocal (x : Action α) : Prop := Stays Stop.RaisedIn x

theorem tryCatch_run (x : Action α) (f : Stop → Action α) (w : World) :
    (tryCatch x f).run w =
      match x.run w with
      | .ok a w' => .ok a w'
      | .error s w' => (f s).run w' := by
  change EStateM.tryCatch x f w = _
  unfold EStateM.tryCatch EStateM.run
  cases x w with
  | ok a w' => rfl
  | error s w' => rfl

theorem here_eq_ok {w w' : World} {b : Boundary} (h : Action.here.run w = .ok b w') :
    w.boundary = some b ∧ w' = w := by
  unfold Action.here at h
  obtain ⟨w₁, _, ⟨⟩, h⟩ := bind_ok h
  cases hb : w.boundary with
  | none =>
    rw [hb] at h
    cases h
  | some b' =>
    rw [hb] at h
    cases h
    exact ⟨rfl, rfl⟩

namespace IsLocal

variable {x : Action α}

theorem pure (a : α) : IsLocal (Pure.pure a) := ⟨.pure a, nofun⟩

theorem throw {s : Stop} (hs : ∀ b, s.RaisedIn b) : IsLocal (MonadExcept.throw s : Action α) where
  keeps := by rintro _ _ _ ⟨⟩
  raises := by
    rintro w _ _ ⟨⟩
    exact ⟨rfl, hs w.boundary⟩

theorem fault (f : Fault) : IsLocal (Action.fault f : Action α) := throw fun _ => .fault f

theorem bind {f : α → Action β} (hx : IsLocal x) (hf : ∀ a, IsLocal (f a)) :
    IsLocal (x >>= f) := Stays.bind hx hf

theorem evaluateUnder (calls : Nat) (e : Eval α) : IsLocal (Action.evaluateUnder calls e) where
  keeps := .evaluateUnder calls e
  raises {w s w'} h := by
    change Action.evaluateUnder calls e w = .error s w' at h
    unfold Action.evaluateUnder at h
    split at h
    · cases h
    · rename_i halt heap _
      cases h
      cases halt with
      | fault f => exact ⟨rfl, .fault f⟩
      | undefinedName name available => exact ⟨rfl, .missing name available⟩
      | outOfSteps => exact ⟨rfl, .outOfSteps⟩

theorem heap : IsLocal Action.heap := ⟨by rintro w _ _ ⟨⟩; rfl, nofun⟩

theorem ofExcept (e : Except Fault α) : IsLocal (Action.ofExcept e) := by
  cases e with
  | ok a => exact pure a
  | error f => exact fault f

theorem orReject {e : Except TemplateError α} (he : ∀ err, e = .error err → err.stack? = none) :
    IsLocal (Action.orReject e) := by
  cases e with
  | ok a => exact pure a
  | error err => exact throw fun _ => .unplaced (he err rfl)

theorem here : IsLocal Action.here where
  keeps w b w' h := by
    obtain ⟨hb, rfl⟩ := here_eq_ok h
    rfl
  raises {w s w'} h := by
    unfold Action.here at h
    rcases bind_error h with ⟨⟨⟩⟩ | ⟨w₁, _, ⟨⟩, h⟩
    cases hb : w.boundary with
    | none =>
      rw [hb] at h
      cases h
      exact ⟨hb, .fault _⟩
    | some b' =>
      rw [hb] at h
      cases h

/-- A handler that does not stay in the boundary passes on what it was given. -/
theorem tryCatch {f : Stop → Action α} (hx : IsLocal x)
    (hf : ∀ s, IsLocal (f s) ∨ f s = MonadExcept.throw s) :
    IsLocal (MonadExcept.tryCatch x f) where
  keeps w a w' h := by
    rw [tryCatch_run] at h
    cases hw : x.run w with
    | ok a' w₁ =>
      rw [hw] at h
      cases h
      exact hx.keeps _ _ _ hw
    | error s w₁ =>
      rw [hw] at h
      change (f s).run w₁ = _ at h
      rcases hf s with hlocal | hthrow
      · exact (hlocal.keeps _ _ _ h).trans (hx.raises hw).1
      · rw [hthrow] at h
        cases h
  raises {w s' w'} h := by
    rw [tryCatch_run] at h
    cases hw : x.run w with
    | ok a' w₁ =>
      rw [hw] at h
      cases h
    | error s w₁ =>
      rw [hw] at h
      change (f s).run w₁ = _ at h
      obtain ⟨hb, hraised⟩ := hx.raises hw
      rcases hf s with hlocal | hthrow
      · obtain ⟨hb', hs'⟩ := hlocal.raises h
        rw [hb] at hb' hs'
        exact ⟨hb', hs'⟩
      · rw [hthrow] at h
        cases h
        exact ⟨hb, hraised⟩

theorem ofSettles {r : Except Failure α} {name : String} (hx : x.Settles r)
    (hr : ∀ f, r = .error f → Refusal name f) : IsLocal x where
  keeps w a w' h := by
    obtain ⟨-, notices, rfl⟩ := hx.of_ok h
    rfl
  raises {w s w'} h := by
    obtain ⟨notices, hw⟩ := hx w
    rw [hw] at h
    cases r with
    | ok a => cases h
    | error f =>
      cases h
      exact ⟨rfl, (hr f rfl).raisedIn _⟩

theorem ofFailure {r : Except Failure α} {name : String}
    (hr : ∀ f, r = .error f → Refusal name f) : IsLocal (Loader.ofFailure r) :=
  ofSettles (.ofFailure r) hr

theorem compileLoaded (env : Environment) (name : String) (l : Loaded) :
    IsLocal (env.compileLoaded name l) := by
  have hcompile (filename : Option String) :
      IsLocal (env.compileSource ⟨l.source, some name, filename⟩) :=
    ofSettles (env.compileSource_settles _) fun f hf => Environment.ofSource_refusal rfl hf
  unfold Environment.compileLoaded
  split
  · exact hcompile _
  · refine bind heap fun h => ?_
    split
    · exact bind (hcompile none) fun _ => fault _
    · exact hcompile none

mutual

theorem find (ev : Evaluator) (calls : Nat) (tree : FileTree) (name : String) :
    ∀ l : Loader, IsLocal (l.find ev calls tree name)
  | .files l => ofFailure fun f hf => by
    have hproper := Loader.files_proper l tree name
    rw [hf] at hproper
    exact hproper
  | .table templates => by
    unfold Loader.find
    cases templates.lookup name with
    | none => exact throw fun _ => .unplaced rfl
    | some source => exact pure _
  | .choice loaders => findFirst ev calls tree name _ [] loaders
  | .lookup views => ofFailure fun f hf => Loader.ofAnswer_refusal hf
  | .callback f =>
    bind (evaluateUnder _ _) fun _ => ofFailure fun f hf => Loader.ofAnswer_refusal hf
  | .shouting => pure _
  | .custom v => evaluateUnder _ _

theorem findFirst (ev : Evaluator) (calls : Nat) (tree : FileTree) (name : String)
    (count : Nat) : ∀ (misses : List String) (ls : List Loader),
      IsLocal (Loader.findFirst ev calls tree name count misses ls)
  | _, [] => throw fun _ => .unplaced rfl
  | misses, l :: ls => by
    refine tryCatch (find ev calls tree name l) fun s => ?_
    split
    · exact .inl (findFirst ev calls tree name count _ ls)
    · exact .inr rfl

end

theorem loadUnder (env : Environment) (calls : Nat) (name : String) :
    IsLocal (env.loadUnder calls name) := by
  unfold Environment.loadUnder
  cases env.loader with
  | none => exact throw fun _ => .unplaced rfl
  | some l => exact bind (find _ _ _ name l) fun found => compileLoaded env name found

end IsLocal

theorem Stays.here_bind {P : Option Boundary → Stop → Prop} {f : Boundary → Action α}
    (hP : ∀ b s, Stop.RaisedIn b s → P b s) (hkeeps : ∀ b, (f b).Keeps)
    (hraises : ∀ {b w s w'}, w.boundary = some b → (f b).run w = .error s w' →
      w'.boundary = w.boundary ∧ P (some b) s) : Stays P (Action.here >>= f) where
  keeps := IsLocal.here.keeps.bind hkeeps
  raises {w s w'} h := by
    rcases bind_error h with hhere | ⟨b, w₁, hhere, hrest⟩
    · obtain ⟨hb, hs⟩ := IsLocal.here.raises hhere
      exact ⟨hb, hP _ _ hs⟩
    · obtain ⟨hb, hw₁⟩ := here_eq_ok hhere
      rw [hw₁] at hrest
      obtain ⟨hb', hs⟩ := hraises hb hrest
      exact ⟨hb', hb ▸ hs⟩

end Action

end Stencil
