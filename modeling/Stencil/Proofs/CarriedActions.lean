import Stencil.Proofs.CarriedExpressions
import Stencil.Proofs.Moments
import Stencil.Proofs.Nesting

/-!
# Actions in renamed heaps

Two actions run side by side, the second in a heap that carries all the first one has. `Follows`
says that they end alike. Where the renaming is exact, this means that they deliver the same or
both stop, with the same error if the boundaries are at the same lines; otherwise the second
delivers what the first one does if that delivers anything. Loading a template from a loader
with renamed values is an example.
-/

namespace Stencil

/-- A bound on nesting and a chain of layouts are met in both boundaries alike. -/
structure Boundary.Level (b b' : Boundary) : Prop where
  depth : b'.depth = b.depth
  limit : b'.limit = b.limit
  chain : b'.chain = b.chain

theorem Action.missing?_stopOf (b : Option Boundary) (halt : Halt) :
    (stopOf b halt).missing? = none := by
  cases halt <;> cases b <;> rfl

theorem Environment.compileLoaded_other (env : Environment) (name : String) (source : String)
    {v : Value} (hv : ¬ ∃ s, v = .str s) : env.compileLoaded name ⟨source, v⟩ = (do
      let h ← Action.heap
      if Value.truth h v then
        let _ ← env.compileSource ⟨source, some name, none⟩
        Action.fault (wrongFilename v)
      else env.compileSource ⟨source, some name, none⟩) := by
  unfold compileLoaded
  split
  · exact absurd ⟨_, ‹_›⟩ hv
  · rfl

namespace Renaming

variable (ρ : Renaming) {α β γ δ : Type}

structure Bounds (b b' : Boundary) : Prop where
  same : ρ.lined → b' = b
  level : b.Level b'

/-- The second stop is the first one, or stands for the same missing template. -/
structure Stops (s s' : Stop) : Prop where
  same : ρ.lined → s' = s
  missing : s'.missing? = s.missing?

structure Worlds (w w' : World) : Prop where
  heap : ρ.Carries w.heap w'.heap
  boundary : Option.Rel ρ.Bounds w.boundary w'.boundary

/-- Two outcomes that are the same up to renaming, where frames have grown from `before`. -/
inductive Concludes (f : α → β) (before : Array Frame) :
    EStateM.Result Stop World α → EStateM.Result Stop World β → Prop
  | ok {a : α} {w w' : World} (hw : ρ.Worlds w w') (hg : Grows before w.heap.frames) :
      Concludes f before (.ok a w) (.ok (f a) w')
  | error {s s' : Stop} {w w' : World} (hw : ρ.Worlds w w') (hg : Grows before w.heap.frames)
      (hs : ρ.Stops s s') : Concludes f before (.error s w) (.error s' w')
  | lost {s : Stop} {w : World} {r : EStateM.Result Stop World β} (hinexact : ¬ ρ.exact)
      (hs : s.missing? = none) : Concludes f before (.error s w) r

/-- Wherever frames have grown from `frames`, the two actions end alike. -/
def Follows (f : α → β) (frames : Array Frame) (x : Action α) (y : Action β) : Prop :=
  ∀ w w', ρ.Worlds w w' → Grows frames w.heap.frames →
    ρ.Concludes f w.heap.frames (x.run w) (y.run w')

variable {ρ} {f : α → β} {g : γ → δ} {frames : Array Frame} {x : Action α} {y : Action β}

namespace Bounds

theorem refl (b : Boundary) : ρ.Bounds b b := ⟨fun _ => rfl, rfl, rfl, rfl⟩

variable {b b' : Boundary} (hb : ρ.Bounds b b')

include hb

theorem atLine {line line' : Nat} (hline : ρ.lined → line' = line) :
    ρ.Bounds (b.atLine line) (b'.atLine line') where
  same hlined := by rw [hb.same hlined, hline hlined]
  level := ⟨hb.level.depth, hb.level.limit, hb.level.chain⟩

theorem child (name : String) (filename source : Option String) (isLayout : Bool) :
    ρ.Bounds (b.child name filename source isLayout) (b'.child name filename source isLayout) where
  same hlined := by rw [hb.same hlined]
  level := by
    refine ⟨congrArg (· + 1) hb.level.depth, hb.level.limit, ?_⟩
    unfold Boundary.child
    dsimp only
    rw [hb.level.chain]

theorem ofSection (owner filename source : Option String) :
    ρ.Bounds (b.ofSection owner filename source) (b'.ofSection owner filename source) where
  same hlined := by rw [hb.same hlined]
  level := ⟨hb.level.depth, hb.level.limit, hb.level.chain⟩

end Bounds

theorem Stops.refl (s : Stop) : ρ.Stops s s := ⟨fun _ => rfl, rfl⟩

theorem Concludes.after {before before' : Array Frame} {r : EStateM.Result Stop World α}
    {r' : EStateM.Result Stop World β} (h : ρ.Concludes f before' r r')
    (hg : Grows before before') : ρ.Concludes f before r r' := by
  cases h with
  | ok hw hg' => exact .ok hw (hg.trans hg')
  | error hw hg' hs => exact .error hw (hg.trans hg') hs
  | lost hinexact hs => exact .lost hinexact hs

namespace Follows

theorem mono {frames' : Array Frame} (h : ρ.Follows f frames x y) (hg : Grows frames frames') :
    ρ.Follows f frames' x y := fun w w' hw hg' => h w w' hw (hg.trans hg')

theorem pure (a : α) : ρ.Follows f frames (Pure.pure a) (Pure.pure (f a)) :=
  fun _ _ hw _ => .ok hw (.refl _)

theorem deliver {a : α} {b : β} (hb : b = f a) :
    ρ.Follows f frames (Pure.pure a) (Pure.pure b) := hb ▸ pure a

theorem throw {s s' : Stop} (hs : ρ.Stops s s') :
    ρ.Follows f frames (MonadExcept.throw s : Action α) (MonadExcept.throw s') :=
  fun _ _ hw _ => .error hw (.refl _) hs

theorem halted (s : Stop) :
    ρ.Follows f frames (MonadExcept.throw s : Action α) (MonadExcept.throw s) := throw (.refl s)

/-- What comes next may count on the first action having delivered `a` in some world. -/
theorem bindRan {k : α → Action γ} {k' : β → Action δ} (hx : ρ.Follows f frames x y)
    (hk : ∀ a w w' w₁, ρ.Worlds w w' → x.run w = .ok a w₁ → Grows frames w.heap.frames →
      Grows w.heap.frames w₁.heap.frames → ρ.Follows g w₁.heap.frames (k a) (k' (f a))) :
    ρ.Follows g frames (x >>= k) (y >>= k') := by
  intro w w' hw hg
  have hr := hx w w' hw hg
  rw [EStateM.run_bind, EStateM.run_bind]
  generalize hrun : x.run w = r, y.run w' = r' at hr ⊢
  cases hr with
  | @ok a w₁ w₁' hw₁ hg₁ => exact (hk a w w' w₁ hw hrun hg hg₁ w₁ w₁' hw₁ (.refl _)).after hg₁
  | error hw₁ hg₁ hs => exact .error hw₁ hg₁ hs
  | lost hinexact hs => exact .lost hinexact hs

theorem bind {k : α → Action γ} {k' : β → Action δ} (hx : ρ.Follows f frames x y)
    (hk : ∀ frames' a, Grows frames frames' → ρ.Follows g frames' (k a) (k' (f a))) :
    ρ.Follows g frames (x >>= k) (y >>= k') :=
  bindRan hx fun a _ _ _ _ _ hg hg₁ => hk _ a (hg.trans hg₁)

theorem stopped (s : Stop) {k : α → Action γ} {k' : α → Action δ} :
    ρ.Follows g frames (MonadExcept.throw s >>= k) (MonadExcept.throw s >>= k') :=
  fun _ _ hw _ => .error hw (.refl _) (.refl s)

theorem world {k : World → Action γ} {k' : World → Action δ}
    (hk : ∀ w w', ρ.Worlds w w' → ρ.Follows g frames (k w) (k' w')) :
    ρ.Follows g frames (MonadState.get >>= k) (MonadState.get >>= k') :=
  fun w w' hw hg => hk w w' hw w w' hw hg

theorem heap {k : Heap → Action γ} {k' : Heap → Action δ}
    (hk : ∀ h h', ρ.Carries h h' → ρ.Follows g frames (k h) (k' h')) :
    ρ.Follows g frames (Action.heap >>= k) (Action.heap >>= k') :=
  fun w w' hw hg => hk _ _ hw.heap w w' hw hg

theorem ofExcept {e : Except Fault α} {e' : Except Fault β} (he : e' = e.map f) :
    ρ.Follows f frames (Action.ofExcept e) (Action.ofExcept e') := by
  subst he
  cases e with
  | ok a => exact pure a
  | error fault => exact halted _

theorem ofFailure {e : Except Failure α} {e' : Except Failure β} (he : e' = e.map f) :
    ρ.Follows f frames (Loader.ofFailure e) (Loader.ofFailure e') := by
  subst he
  cases e with
  | ok a => exact pure a
  | error failure => exact halted _

theorem notice (n : Notice) : ρ.Follows id frames (Action.notice n) (Action.notice n) :=
  fun _ _ hw _ => .ok (a := ()) ⟨hw.heap, hw.boundary⟩ (.refl _)

theorem forM {ε : Type} {k : ε → Action PUnit}
    (hk : ∀ frames' e, ρ.Follows id frames' (k e) (k e)) (es : List ε) :
    ρ.Follows id frames (es.forM k) (es.forM k) := by
  induction es generalizing frames with
  | nil => exact pure PUnit.unit
  | cons e es ih => exact bind (hk frames e) fun _ _ _ => ih

theorem markLine {line line' : Nat} (hline : ρ.lined → line' = line) :
    ρ.Follows id frames (Action.markLine line) (Action.markLine line') := by
  intro w w' hw _
  refine .ok (a := ()) ⟨hw.heap, ?_⟩ (.refl _)
  have hb := hw.boundary
  dsimp only
  generalize w.boundary = b, w'.boundary = b' at hb ⊢
  cases hb with
  | none => exact .none
  | some hb => exact .some (hb.atLine hline)

theorem evaluateUnder (calls : Nat) {e : Eval α} {e' : Eval β} (he : ρ.Carried f e e') :
    ρ.Follows f frames (Action.evaluateUnder calls e) (Action.evaluateUnder calls e') := by
  intro w w' hw _
  have hr := he calls w.heap w'.heap hw.heap
  change ρ.Concludes f w.heap.frames (Action.evaluateUnder calls e w)
    (Action.evaluateUnder calls e' w')
  unfold Action.evaluateUnder
  generalize e.run calls w.heap = r, e'.run calls w'.heap = r' at hr ⊢
  cases hr with
  | ok hc hg => exact .ok ⟨hc, hw.boundary⟩ hg
  | error hc hg =>
    refine .error ⟨hc, hw.boundary⟩ hg ⟨fun hlined => ?_, ?_⟩
    · have hb := hw.boundary
      generalize w.boundary = b, w'.boundary = b' at hb ⊢
      cases hb with
      | none => rfl
      | some hb => rw [hb.same hlined]
    · rw [Action.missing?_stopOf, Action.missing?_stopOf]
  | lost hinexact hfault => exact .lost hinexact rfl

theorem within {b b' : Boundary} (hb : ρ.Bounds b b') (hx : ρ.Follows f frames x y) :
    ρ.Follows f frames (Action.within b x) (Action.within b' y) := by
  intro w w' hw hg
  have hr := hx { w with boundary := some b } { w' with boundary := some b' }
    ⟨hw.heap, .some hb⟩ hg
  change ρ.Concludes f w.heap.frames (Action.within b x w) (Action.within b' y w')
  unfold Action.within
  generalize x.run { w with boundary := some b } = r, y.run { w' with boundary := some b' } = r'
    at hr ⊢
  cases hr with
  | ok hw' hg' => exact .ok ⟨hw'.heap, hw.boundary⟩ hg'
  | @error s s' w₁ w₁' hw' hg' hs =>
    refine .error ⟨hw'.heap, hw.boundary⟩ hg' ⟨fun hlined => ?_, ?_⟩
    · have hb₁ := hw'.boundary
      rw [hs.same hlined]
      generalize w₁.boundary = b₁, w₁'.boundary = b₁' at hb₁ ⊢
      cases hb₁ with
      | none => rw [hb.same hlined]
      | some hb₁ =>
        dsimp only [Option.getD_some]
        rw [hb₁.same hlined]
    · rw [Stop.missing?_reported, Stop.missing?_reported, hs.missing]
  | lost hinexact hs => exact .lost hinexact ((Stop.missing?_reported _ _).trans hs)

theorem here {k : Boundary → Action γ} {k' : Boundary → Action δ}
    (hk : ∀ b b', ρ.Bounds b b' → ρ.Follows g frames (k b) (k' b')) :
    ρ.Follows g frames (Action.here >>= k) (Action.here >>= k') := by
  intro w w' hw hg
  cases hwb : w.boundary with
  | none =>
    cases hwb' : w'.boundary with
    | none =>
      have hrun : ∀ (u : World) {ε : Type} (j : Boundary → Action ε), u.boundary = none →
          (Action.here >>= j).run u = .error (.failed (.fault Action.notRendering)) u := by
        intro u ε j hu
        simp only [Action.here, EStateM.run_bind, EStateM.run_get, hu]
        rfl
      rw [hrun w k hwb, hrun w' k' hwb']
      exact .error hw (.refl _) (.refl _)
    | some b' =>
      have hb := hw.boundary
      rw [hwb, hwb'] at hb
      cases hb
  | some b =>
    cases hwb' : w'.boundary with
    | none =>
      have hb := hw.boundary
      rw [hwb, hwb'] at hb
      cases hb
    | some b' =>
      have hb := hw.boundary
      rw [hwb, hwb'] at hb
      cases hb with
      | some hb =>
        rw [Action.run_here_bind hwb, Action.run_here_bind hwb']
        exact hk b b' hb w w' hw hg

theorem checkDepth {b b' : Boundary} (hb : ρ.Bounds b b') (name : String) :
    ρ.Follows id frames (Action.orReject (b.checkDepth name))
      (Action.orReject (b'.checkDepth name)) := by
  unfold Boundary.checkDepth
  rw [hb.level.depth, hb.level.limit]
  split
  · exact throw ⟨fun hlined => by rw [hb.same hlined], rfl⟩
  · exact pure ()

theorem checkCycle {b b' : Boundary} (hb : ρ.Bounds b b') (name : String) :
    ρ.Follows id frames (Action.orReject (b.checkCycle name))
      (Action.orReject (b'.checkCycle name)) := by
  unfold Boundary.checkCycle
  rw [hb.level.chain]
  split
  · exact halted _
  · exact pure ()

/-- Actions tried with handlers that only take up a template that was not found. -/
theorem tryCatch {k : Stop → Action α} {k' : Stop → Action β} (hx : ρ.Follows f frames x y)
    (hmiss : ∀ frames' m n, ρ.Follows f frames' (k (.failed (.template (.notFound m n))))
      (k' (.failed (.template (.notFound m n)))))
    (hk : ∀ s : Stop, s.missing? = none → k s = MonadExcept.throw s)
    (hk' : ∀ s : Stop, s.missing? = none → k' s = MonadExcept.throw s) :
    ρ.Follows f frames (MonadExcept.tryCatch x k) (MonadExcept.tryCatch y k') := by
  intro w w' hw hgrows
  have hr : ρ.Concludes f w.heap.frames (x w) (y w') := hx w w' hw hgrows
  change ρ.Concludes f w.heap.frames (EStateM.tryCatch x k w) (EStateM.tryCatch y k' w')
  unfold EStateM.tryCatch
  generalize x w = r, y w' = r' at hr
  cases hr with
  | ok hw' hg' => exact .ok hw' hg'
  | @error s s' w₁ w₁' hw' hg' hs =>
    cases hm : s.missing? with
    | none =>
      simp only [hk s hm, hk' s' (hs.missing.trans hm)]
      exact .error hw' hg' hs
    | some m =>
      rw [Stop.eq_of_missing? hm, Stop.eq_of_missing? (hs.missing.trans hm)]
      exact (hmiss _ m.1 m.2 w₁ w₁' hw' (.refl _)).after hg'
  | @lost s w₁ r hinexact hs =>
    simp only [hk s hs]
    exact .lost hinexact hs

end Follows

section Loading

variable (ρ)

mutual

def loader : Loader → Loader
  | .files l => .files l
  | .table templates => .table templates
  | .choice ls => .choice (loaders ls)
  | .lookup views => .lookup (ρ.bindings views)
  | .callback v => .callback (ρ.value v)
  | .shouting => .shouting
  | .custom v => .custom (ρ.value v)

def loaders : List Loader → List Loader
  | [] => []
  | l :: ls => loader l :: loaders ls

end

theorem loaders_length (ls : List Loader) : (ρ.loaders ls).length = ls.length := by
  induction ls with
  | nil => rfl
  | cons l ls ih => exact congrArg (· + 1) ih

def environment (env : Environment) : Environment :=
  { env with
    loader := env.loader.map ρ.loader
    globals := ρ.bindings env.globals
    shared := ρ.bindings env.shared }

def loaded (l : Loaded) : Loaded := { l with filename := ρ.value l.filename }

variable {ρ}

theorem title_loader (l : Loader) : (ρ.loader l).title = l.title := by
  cases l <;> simp [loader, Loader.title]

theorem ofAnswer_value (name : String) (v : Value) :
    Loader.ofAnswer name (ρ.value v) = (Loader.ofAnswer name v).map ρ.loaded := by
  cases v with
  | tuple items =>
    rw [value_tuple]
    rcases items with _ | ⟨source, _ | ⟨filename, _ | ⟨third, rest⟩⟩⟩
    · rfl
    all_goals cases source <;> rfl
  | method receiver called =>
    exact congrArg (fun kind => Except.error (Failure.fault (Fault.type
      ("Loader function returned " ++ kind ++ " for '" ++ name ++
        "'; expected str, (source, filename) or None"))))
      (ρ.kindName_value (.method receiver called))
  | _ => rfl

theorem found_same (l : FileLoader) (tree : FileTree) (name : String) :
    l.find tree name = (l.find tree name).map ρ.loaded := by
  have hproper := Loader.files_proper l tree name
  cases hfound : l.find tree name with
  | error failure => rfl
  | ok found =>
    rw [hfound] at hproper
    obtain ⟨source, filename⟩ := found
    rcases hproper with ⟨s, rfl⟩ | rfl <;> rfl

theorem fromObject_carried {ev : Evaluator} (hev : ρ.Evaluates ev) (v : Value) (name : String) :
    ρ.Carried ρ.loaded (Loader.fromObject ev v name) (Loader.fromObject ev (ρ.value v) name) := by
  unfold Loader.fromObject
  refine .get fun h h' hc => ?_
  refine .bind (.ofExcept (hc.ownAttribute_value v _)) fun callee => ?_
  refine .bind (hev.call callee [.str name] []) fun answer => ?_
  refine .bind (hev.unpackExactly answer 2) fun parts => ?_
  rcases parts with _ | ⟨source, _ | ⟨filename, _ | ⟨third, rest⟩⟩⟩
  · exact .fault _
  · cases source <;> exact .fault _
  · cases source with
    | str s => exact .pure
    | _ => exact .fault _
  · cases source <;> exact .fault _

mutual

theorem find_follows {ev : Evaluator} (hev : ρ.Evaluates ev) (calls : Nat) (tree : FileTree)
    (name : String) : ∀ (l : Loader) {frames : Array Frame},
      ρ.Follows ρ.loaded frames (l.find ev calls tree name) ((ρ.loader l).find ev calls tree name)
  | .files l, _ => by
    unfold loader Loader.find
    exact .ofFailure (found_same l tree name)
  | .table templates, _ => by
    unfold loader Loader.find
    cases templates.lookup name with
    | none => exact .halted _
    | some source => exact .pure _
  | .choice ls, _ => by
    unfold loader Loader.find
    rw [loaders_length]
    exact findFirst_follows hev calls tree name _ [] ls
  | .lookup views, _ => by
    unfold loader Loader.find
    refine .ofFailure ?_
    rw [← ofAnswer_value, ρ.bindings_get?]
    cases views.get? name <;> rfl
  | .callback v, _ => by
    unfold loader Loader.find
    refine .bind (.evaluateUnder calls (hev.call v [.str name] [])) fun _ answer _ => ?_
    exact .ofFailure (ofAnswer_value name answer)
  | .shouting, _ => .pure _
  | .custom v, _ => .evaluateUnder calls (fromObject_carried hev v name)

theorem findFirst_follows {ev : Evaluator} (hev : ρ.Evaluates ev) (calls : Nat) (tree : FileTree)
    (name : String) (count : Nat) : ∀ (misses : List String) (ls : List Loader)
      {frames : Array Frame},
      ρ.Follows ρ.loaded frames (Loader.findFirst ev calls tree name count misses ls)
        (Loader.findFirst ev calls tree name count misses (ρ.loaders ls))
  | _, [], _ => .halted _
  | misses, l :: ls, _ => by
    unfold loaders Loader.findFirst
    rw [title_loader]
    refine .tryCatch (find_follows hev calls tree name l)
      (fun _ m n => findFirst_follows hev calls tree name count _ ls) ?_ ?_
    · intro s hs
      split
      · cases hs
      · rfl
    · intro s hs
      split
      · cases hs
      · rfl

end

theorem compile_follows (s : Source) (lenient : Bool) :
    ρ.Follows id frames (Template.compile s lenient) (Template.compile s lenient) := by
  unfold Template.compile
  cases s.tree with
  | error failure => exact .halted _
  | ok read =>
    refine .bind (.forM (fun _ _ => .notice _) _) fun _ _ _ => ?_
    cases Template.checkFault? s read.1 with
    | some f => exact .halted _
    | none => exact .bind (.notice _) fun _ _ _ => .pure _

theorem compileSource_follows (env : Environment) (s : Source) :
    ρ.Follows id frames (env.compileSource s) ((ρ.environment env).compileSource s) := by
  unfold Environment.compileSource environment
  dsimp only
  cases env.host.breakdown? s with
  | some b => exact .halted _
  | none => exact compile_follows s _

theorem compileLoaded_follows (env : Environment) (name : String) (l : Loaded) :
    ρ.Follows id frames (env.compileLoaded name l)
      ((ρ.environment env).compileLoaded name (ρ.loaded l)) := by
  obtain ⟨source, filename⟩ := l
  by_cases hfilename : ∃ s, filename = .str s
  · obtain ⟨s, rfl⟩ := hfilename
    exact compileSource_follows env _
  · have hfilename' : ¬ ∃ s, ρ.value filename = .str s := by
      rintro ⟨s, hs⟩
      cases filename <;> simp [value] at hs hfilename
    rw [Environment.compileLoaded_other env name source hfilename]
    unfold loaded
    rw [Environment.compileLoaded_other _ name _ hfilename']
    refine .heap fun h h' hc => ?_
    unfold Environment.wrongFilename
    rw [hc.truth_value, ρ.kindName_value]
    split
    · exact .bind (compileSource_follows env _) fun _ _ _ => .halted _
    · exact compileSource_follows env _

theorem loadUnder_follows (env : Environment) (calls : Nat) (name : String) :
    ρ.Follows id frames (env.loadUnder calls name) ((ρ.environment env).loadUnder calls name) := by
  unfold Environment.loadUnder environment
  dsimp only
  cases env.loader with
  | none => exact .halted _
  | some l =>
    exact .bind (find_follows ρ.standard_evaluates calls _ name l) fun _ found _ =>
      compileLoaded_follows env name found

end Loading

end Renaming

end Stencil
