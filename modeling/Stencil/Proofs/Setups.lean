import Stencil.Proofs.CarriedSessions

/-!
# Setups of immutable data

Immutable data need no heap: taking them in makes nothing there, and their values refer to nothing.
An environment whose loader, globals and shared data are immutable is therefore settled by its
setup, and what it is told later could have stood in the setup from the start.
-/

namespace Stencil

namespace Datum

mutual

/-- Whether nothing can change the datum once it is taken into a heap. -/
def isImmutable : Datum → Bool
  | .none | .bool _ | .int _ | .float _ | .str _ | .bytes _ | .range _ _ _ | .host _ => true
  | .tuple items => allImmutable items
  | .list _ | .dict _ | .object _ | .row _ | .textual _ | .iterator _ => false

def allImmutable : List Datum → Bool
  | [] => true
  | d :: ds => isImmutable d && allImmutable ds

end

def fieldsImmutable (fields : List (String × Datum)) : Bool := fields.all fun f => f.2.isImmutable

end Datum

theorem Eval.pure_injective {α : Type} {a b : α} (h : (pure a : Eval α) = pure b) : a = b := by
  have hrun := congrArg (fun e => e.run 0 .empty) h
  cases hrun
  rfl

/-- The value refers to nothing in a heap, so renaming has no effect on it. -/
def Value.IsPlain (v : Value) : Prop := ∀ ρ : Renaming, ρ.value v = v

def BindingsOf.IsPlain (b : Bindings) : Prop := ∀ ρ : Renaming, ρ.bindings b = b

theorem BindingsOf.IsPlain.update {b more : Bindings} (hb : IsPlain b) (hmore : IsPlain more) :
    IsPlain (b.update more) := fun ρ => by rw [ρ.bindings_update, hb ρ, hmore ρ]

namespace Datum

mutual

theorem load_immutable : ∀ d : Datum, d.isImmutable = true →
    ∃ v : Value, d.load = pure v ∧ v.IsPlain
  | .none, _ => ⟨.none, rfl, fun _ => rfl⟩
  | .bool b, _ => ⟨.bool b, rfl, fun _ => rfl⟩
  | .int n, _ => ⟨.int n, rfl, fun _ => rfl⟩
  | .float x, _ => ⟨.float x, rfl, fun _ => rfl⟩
  | .str s, _ => ⟨.str s, rfl, fun _ => rfl⟩
  | .bytes b, _ => ⟨.bytes b, rfl, fun _ => rfl⟩
  | .range a b c, _ => ⟨.range a b c, rfl, fun _ => rfl⟩
  | .host f, _ => ⟨.host f, rfl, fun _ => rfl⟩
  | .tuple items, h => by
    obtain ⟨vs, hvs, hplain⟩ := loadAll_immutable items h
    refine ⟨.tuple vs, ?_, fun ρ => ?_⟩
    · rw [load, hvs]
      rfl
    · rw [ρ.value_tuple]
      exact congrArg Value.tuple ((List.map_congr_left fun v hv => hplain v hv ρ).trans vs.map_id)

theorem loadAll_immutable : ∀ ds : List Datum, allImmutable ds = true →
    ∃ vs : List Value, loadAll ds = pure vs ∧ ∀ v ∈ vs, v.IsPlain
  | [], _ => ⟨[], rfl, nofun⟩
  | d :: ds, h => by
    obtain ⟨hd, hds⟩ := Bool.and_eq_true_iff.mp h
    obtain ⟨v, hv, hplain⟩ := load_immutable d hd
    obtain ⟨vs, hvs, hplains⟩ := loadAll_immutable ds hds
    refine ⟨v :: vs, ?_, List.forall_mem_cons.mpr ⟨hplain, hplains⟩⟩
    rw [loadAll, hv, hvs]
    rfl

end

theorem loadFields_immutable {fields : List (String × Datum)} (h : fieldsImmutable fields = true) :
    ∃ b : Bindings, loadFields fields = pure b ∧ b.IsPlain := by
  induction fields with
  | nil => exact ⟨[], rfl, fun _ => rfl⟩
  | cons f fields ih =>
    obtain ⟨hf, hfields⟩ := Bool.and_eq_true_iff.mp h
    obtain ⟨v, hv, hplain⟩ := load_immutable f.2 hf
    obtain ⟨b, hb, hplains⟩ := ih hfields
    refine ⟨(f.1, v) :: b, ?_, fun ρ => ?_⟩
    · rw [loadFields, loadField, hv, hb]
      rfl
    · exact congrArg₂ List.cons (Prod.ext rfl (hplain ρ)) (hplains ρ)

/-- Immutable fields that are taken in one after the other are taken in together. -/
theorem loadFields_append {fields more : List (String × Datum)}
    (himm : fieldsImmutable fields = true) {b b' : Bindings} (h : loadFields fields = pure b)
    (h' : loadFields more = pure b') : loadFields (fields ++ more) = pure (b ++ b') := by
  induction fields generalizing b with
  | nil =>
    cases Eval.pure_injective h
    exact h'
  | cons f fields ih =>
    obtain ⟨hf, hfields⟩ := Bool.and_eq_true_iff.mp himm
    obtain ⟨v, hv, -⟩ := load_immutable f.2 hf
    obtain ⟨b₁, hb₁, -⟩ := loadFields_immutable hfields
    rw [loadFields, loadField, hv, hb₁] at h
    cases Eval.pure_injective h
    rw [List.cons_append, loadFields, loadField, hv, ih hfields hb₁]
    rfl

end Datum

namespace LoaderSpec

mutual

def isImmutable : LoaderSpec → Bool
  | .files _ | .table _ | .shouting => true
  | .choice specs => allImmutable specs
  | .lookup views => Datum.fieldsImmutable views
  | .callback d | .custom d => d.isImmutable

def allImmutable : List LoaderSpec → Bool
  | [] => true
  | l :: ls => isImmutable l && allImmutable ls

end

def putTemplate (name source : String) : LoaderSpec → LoaderSpec
  | .table templates => .table ((name, source) :: templates.filter (·.1 ≠ name))
  | l => l

end LoaderSpec

structure Setup.IsImmutable (s : Setup) : Prop where
  loader : ∀ l, s.loader = some l → l.isImmutable = true
  globals : Datum.fieldsImmutable s.globals = true
  shared : Datum.fieldsImmutable s.shared = true

def Loader.IsPlain (l : Loader) : Prop := ∀ ρ : Renaming, ρ.loader l = l

/-- Nothing of the environment is in a heap. -/
structure Environment.IsPlain (env : Environment) : Prop where
  loader : ∀ ρ : Renaming, env.loader.map ρ.loader = env.loader
  globals : BindingsOf.IsPlain env.globals
  shared : BindingsOf.IsPlain env.shared

theorem Environment.IsPlain.environment {env : Environment} (h : env.IsPlain) (ρ : Renaming) :
    ρ.environment env = env := by
  unfold Renaming.environment
  rw [h.loader, h.globals, h.shared]

theorem Action.evaluate_pure {α : Type} (a : α) : evaluate (pure a : Eval α) = pure a := rfl

namespace LoaderSpec

mutual

theorem make_immutable : ∀ spec : LoaderSpec, spec.isImmutable = true →
    ∃ r, spec.make = Loader.ofFailure r ∧ ∀ l, r = .ok l → l.IsPlain
  | .files l, _ => ⟨.ok (.files _), rfl, fun _ h => by cases h; exact fun _ => rfl⟩
  | .table templates, _ => ⟨.ok (.table templates), rfl, fun _ h => by cases h; exact fun _ => rfl⟩
  | .shouting, _ => ⟨.ok .shouting, rfl, fun _ h => by cases h; exact fun _ => rfl⟩
  | .choice specs, h => by
    obtain ⟨r, hr, hplain⟩ := makeAll_immutable specs h
    rw [make, hr]
    cases r with
    | error f => exact ⟨.error f, rfl, nofun⟩
    | ok ls =>
      refine ⟨.ok (.choice ls), rfl, fun l hl ρ => ?_⟩
      cases hl
      rw [Renaming.loader, hplain ls rfl ρ]
  | .lookup views, h => by
    obtain ⟨b, hb, hplain⟩ := Datum.loadFields_immutable h
    refine ⟨.ok (.lookup b), ?_, fun l hl ρ => ?_⟩
    · rw [make, hb]
      rfl
    · cases hl
      rw [Renaming.loader, hplain ρ]
  | .callback d, h => by
    obtain ⟨v, hv, hplain⟩ := Datum.load_immutable d h
    rw [make, hv, Action.evaluate_pure, pure_bind]
    by_cases hcallable : Loader.isCallable v = true
    · rw [if_pos hcallable]
      refine ⟨.ok (.callback v), rfl, fun l hl ρ => ?_⟩
      cases hl
      rw [Renaming.loader, hplain ρ]
    · rw [if_neg hcallable]
      exact ⟨.error _, rfl, nofun⟩
  | .custom d, h => by
    obtain ⟨v, hv, hplain⟩ := Datum.load_immutable d h
    refine ⟨.ok (.custom v), ?_, fun l hl ρ => ?_⟩
    · rw [make, hv]
      rfl
    · cases hl
      rw [Renaming.loader, hplain ρ]

theorem makeAll_immutable : ∀ specs : List LoaderSpec, allImmutable specs = true →
    ∃ r, makeAll specs = Loader.ofFailure r ∧ ∀ ls, r = .ok ls → ∀ ρ : Renaming, ρ.loaders ls = ls
  | [], _ => ⟨.ok [], rfl, fun _ h => by cases h; exact fun _ => rfl⟩
  | spec :: specs, h => by
    obtain ⟨hspec, hspecs⟩ := Bool.and_eq_true_iff.mp h
    obtain ⟨r, hr, hplain⟩ := make_immutable spec hspec
    obtain ⟨rs, hrs, hplains⟩ := makeAll_immutable specs hspecs
    rw [makeAll, hr, hrs]
    cases r with
    | error f => exact ⟨.error f, rfl, nofun⟩
    | ok l =>
      cases rs with
      | error f => exact ⟨.error f, rfl, nofun⟩
      | ok ls =>
        refine ⟨.ok (l :: ls), rfl, fun _ hls ρ => ?_⟩
        cases hls
        rw [Renaming.loaders, hplain l rfl ρ, hplains ls rfl ρ]

end

end LoaderSpec

namespace Setup

def makeLoader (s : Setup) : Action (Option Loader) :=
  match s.loader with
  | none | some (.custom .none) => pure none
  | some l => some <$> l.make

/-- The environment that is made from the setup, where no value needs a heap. -/
structure Gives (s : Setup) (env : Environment) : Prop where
  loader : s.makeLoader = pure env.loader
  usable : ∀ l, env.loader = some l → l.isUsable .empty = true
  globals : ∃ b, Datum.loadFields s.globals = pure b ∧
    env.globals = Environment.builtins.update b
  shared : ∃ b, Datum.loadFields s.shared = pure b ∧ env.shared = BindingsOf.update [] b
  limit : Environment.limitOf s.limit = pure env.limit
  lenient : env.lenient = s.lenient
  files : env.files = s.files
  host : env.host = s.host

variable {s : Setup} {env : Environment}

theorem makeLoader_immutable (himm : s.IsImmutable) :
    ∃ r, s.makeLoader = Loader.ofFailure r ∧ ∀ o, r = .ok o → ∀ l, o = some l → l.IsPlain := by
  unfold makeLoader
  split
  · exact ⟨.ok none, rfl, fun _ h => by cases h; nofun⟩
  · exact ⟨.ok none, rfl, fun _ h => by cases h; nofun⟩
  · rename_i spec _ hspec
    obtain ⟨r, hr, hplain⟩ := spec.make_immutable (himm.loader spec hspec)
    rw [hr]
    cases r with
    | error f => exact ⟨.error f, rfl, nofun⟩
    | ok l =>
      refine ⟨.ok (some l), rfl, fun _ h l' hl' => ?_⟩
      cases h
      cases hl'
      exact hplain l rfl

theorem limitOf_ok {d : Option Datum} {limit : Int} {w w' : World}
    (h : (Environment.limitOf d).run w = .ok limit w') :
    Environment.limitOf d = pure limit ∧ w' = w := by
  unfold Environment.limitOf at h ⊢
  split at h
  · cases h
    exact ⟨rfl, rfl⟩
  · split at h
    · rename_i hn
      cases h
      exact ⟨if_pos hn, rfl⟩
    · cases h
  · obtain ⟨v, w₁, _, h⟩ := Action.bind_ok h
    obtain ⟨w₂, w₃, _, h⟩ := Action.bind_ok h
    obtain ⟨text, w₄, _, h⟩ := Action.bind_ok h
    cases h

def checkLoader (o : Option Loader) : Action Unit := do
  if let some l := o then
    if !l.isUsable (← get).heap then Action.fault (Environment.noSource l)

theorem checkLoader_some (l : Loader) (w : World) : (checkLoader (some l)).run w =
    if l.isUsable w.heap then .ok () w
    else .error (.failed (.fault (Environment.noSource l))) w := by
  change ((if !l.isUsable w.heap then Action.fault (Environment.noSource l) else pure ()) :
    Action Unit).run w = _
  cases l.isUsable w.heap <;> rfl

theorem checkLoader_ok {o : Option Loader} {w w' : World} {u : Unit}
    (h : (checkLoader o).run w = .ok u w') :
    w' = w ∧ ∀ l, o = some l → l.isUsable w.heap = true := by
  cases o with
  | none =>
    cases h
    exact ⟨rfl, nofun⟩
  | some l =>
    rw [checkLoader_some] at h
    split at h
    · rename_i husable
      cases h
      refine ⟨rfl, fun l' hl' => ?_⟩
      cases hl'
      exact husable
    · cases h

theorem checkLoader_usable {o : Option Loader} {w : World}
    (h : ∀ l, o = some l → l.isUsable w.heap = true) : (checkLoader o).run w = .ok () w := by
  cases o with
  | none => rfl
  | some l => rw [checkLoader_some, if_pos (h l rfl)]

def shareAll (s : Setup) (env : Environment) : Action Environment := do
  if s.shared.isEmpty then return env
  else env.share (← Action.evaluate (Datum.loadFields s.shared))

theorem shareAll_run (s : Setup) {b : Bindings} (hb : Datum.loadFields s.shared = pure b)
    (env : Environment) (hnone : env.shared = []) (w : World) : ∃ notices,
      (s.shareAll env).run w =
        .ok { env with shared := BindingsOf.update [] b } { w with notices } := by
  unfold shareAll
  rw [hb, Action.evaluate_pure, pure_bind]
  cases hshared : s.shared with
  | nil =>
    rw [hshared] at hb
    cases Eval.pure_injective hb
    obtain ⟨loader, globals, shared, limit, lenient, files⟩ := env
    cases hnone
    exact ⟨w.notices, rfl⟩
  | cons f fields =>
    refine ⟨w.notices.push (Environment.sharedNotice b.keys), ?_⟩
    rw [← hnone]
    rfl

theorem make_eq (s : Setup) : Environment.make s = (do
    let loader ← s.makeLoader
    let globals ← Action.evaluate (Datum.loadFields s.globals)
    checkLoader loader
    let limit ← Environment.limitOf s.limit
    s.shareAll
      ⟨loader, Environment.builtins.update globals, [], limit, s.lenient, s.files, s.host⟩) := by
  have hloader (rest : Option Loader → Action Environment) :
      (match s.loader with
        | none => pure none >>= rest
        | some (.custom .none) => pure none >>= rest
        | some l => (some <$> l.make) >>= rest) = s.makeLoader >>= rest := by
    unfold makeLoader
    rcases s.loader with _ | l
    · rfl
    · cases l with
      | custom d => cases d <;> rfl
      | _ => rfl
  refine (hloader _).trans (bind_congr fun loader => bind_congr fun globals => ?_)
  cases loader with
  | none => rfl
  | some l =>
    unfold checkLoader
    dsimp only
    rw [bind_assoc]
    refine bind_congr fun w => ?_
    cases l.isUsable w.heap <;> rfl

theorem gives_of_make (himm : s.IsImmutable) {w : World}
    (h : (Environment.make s).run .fresh = .ok env w) : s.Gives env := by
  obtain ⟨r, hloader, -⟩ := makeLoader_immutable himm
  obtain ⟨globals, hglobals, -⟩ := Datum.loadFields_immutable himm.globals
  obtain ⟨shared, hshared, -⟩ := Datum.loadFields_immutable himm.shared
  rw [make_eq, hloader, hglobals, Action.evaluate_pure] at h
  cases r with
  | error f => cases h
  | ok loader =>
    change (pure loader >>= _ : Action Environment).run _ = _ at h
    rw [pure_bind, pure_bind] at h
    obtain ⟨_, w₁, hcheck, h⟩ := Action.bind_ok h
    obtain ⟨rfl, husable⟩ := checkLoader_ok hcheck
    obtain ⟨limit, w₂, hlimit, h⟩ := Action.bind_ok h
    obtain ⟨hpure, rfl⟩ := limitOf_ok hlimit
    obtain ⟨notices, hrun⟩ := shareAll_run s hshared
      ⟨loader, Environment.builtins.update globals, [], limit, s.lenient, s.files, s.host⟩ rfl
      .fresh
    rw [hrun] at h
    cases h
    exact ⟨hloader, husable, ⟨globals, hglobals, rfl⟩, ⟨shared, hshared, rfl⟩, hpure, rfl, rfl, rfl⟩

theorem Gives.make (h : s.Gives env) :
    ∃ notices, (Environment.make s).run .fresh = .ok env ⟨.empty, none, notices⟩ := by
  obtain ⟨globals, hglobals, henv⟩ := h.globals
  obtain ⟨shared, hshared, henv'⟩ := h.shared
  have hcheck := checkLoader_usable (w := .fresh) h.usable
  obtain ⟨notices, hrun⟩ := shareAll_run s hshared
    ⟨env.loader, Environment.builtins.update globals, [], env.limit, s.lenient, s.files, s.host⟩ rfl
    .fresh
  refine ⟨notices, ?_⟩
  rw [make_eq, h.loader, hglobals, Action.evaluate_pure, pure_bind, pure_bind,
    Action.bind_of_ok hcheck, h.limit, pure_bind, hrun, ← henv, ← henv', ← h.lenient, ← h.files,
    ← h.host]
  rfl

theorem builtins_plain : BindingsOf.IsPlain Environment.builtins := by
  intro ρ
  unfold Environment.builtins Renaming.bindings
  rw [List.map_map]
  rfl

theorem Gives.plain (himm : s.IsImmutable) (h : s.Gives env) : env.IsPlain where
  loader ρ := by
    obtain ⟨r, hr, hplain⟩ := makeLoader_immutable himm
    have hmade := congrArg (EStateM.run · World.fresh) (h.loader.symm.trans hr)
    cases r with
    | error f => cases hmade
    | ok o =>
      cases hmade
      cases ho : env.loader with
      | none => rfl
      | some l => rw [Option.map_some, hplain _ rfl l ho ρ]
  globals := by
    obtain ⟨globals, hglobals, henv⟩ := h.globals
    obtain ⟨b, hb, hplain⟩ := Datum.loadFields_immutable himm.globals
    cases Eval.pure_injective (hglobals.symm.trans hb)
    rw [henv]
    exact builtins_plain.update hplain
  shared := by
    obtain ⟨shared, hshared, henv⟩ := h.shared
    obtain ⟨b, hb, hplain⟩ := Datum.loadFields_immutable himm.shared
    cases Eval.pure_injective (hshared.symm.trans hb)
    rw [henv]
    exact BindingsOf.IsPlain.update (fun _ => rfl) hplain

theorem Gives.share (himm : s.IsImmutable) (h : s.Gives env) {entries : List (String × Datum)}
    {b : Bindings} (hb : Datum.loadFields entries = pure b) :
    ({ s with shared := s.shared ++ entries } : Setup).Gives
      { env with shared := env.shared.update b } := by
  obtain ⟨shared, hshared, henv⟩ := h.shared
  refine { h with
    shared := ⟨shared ++ b, Datum.loadFields_append himm.shared hshared hb, ?_⟩ }
  rw [henv]
  exact (List.foldl_append ..).symm

theorem Gives.addGlobals (himm : s.IsImmutable) (h : s.Gives env) {entries : List (String × Datum)}
    {b : Bindings} (hb : Datum.loadFields entries = pure b) :
    ({ s with globals := s.globals ++ entries } : Setup).Gives (env.addGlobals b) := by
  obtain ⟨globals, hglobals, henv⟩ := h.globals
  refine { h with
    globals := ⟨globals ++ b, Datum.loadFields_append himm.globals hglobals hb, ?_⟩ }
  unfold Environment.addGlobals
  rw [henv]
  exact (List.foldl_append ..).symm

/-- A template is put into a table, whether it has been made a loader already or not. -/
theorem makeLoader_putTemplate (s : Setup) (name source : String) :
    ({ s with loader := s.loader.map (LoaderSpec.putTemplate name source) } : Setup).makeLoader =
      Option.map (Loader.putTemplate name source) <$> s.makeLoader := by
  unfold makeLoader
  dsimp only
  rcases s.loader with _ | spec
  · rfl
  · cases spec with
    | files l => rfl
    | table templates => rfl
    | choice specs =>
      simp only [Option.map_some, LoaderSpec.putTemplate, LoaderSpec.make, map_bind, map_pure]
      rfl
    | lookup views =>
      simp only [Option.map_some, LoaderSpec.putTemplate, LoaderSpec.make, map_bind, map_pure]
      rfl
    | callback d =>
      simp only [Option.map_some, LoaderSpec.putTemplate, LoaderSpec.make, map_bind]
      refine bind_congr fun f => ?_
      split <;> rfl
    | shouting => rfl
    | custom d =>
      have hmade : some <$> (LoaderSpec.custom d).make =
          Option.map (Loader.putTemplate name source) <$> some <$> (LoaderSpec.custom d).make := by
        simp only [LoaderSpec.make, map_bind, map_pure]
        rfl
      cases d with
      | none => rfl
      | _ => exact hmade

theorem IsImmutable.putTemplate (himm : s.IsImmutable) (name source : String) :
    ({ s with loader := s.loader.map (LoaderSpec.putTemplate name source) } : Setup).IsImmutable :=
  { himm with
    loader := fun l hl => by
      obtain ⟨spec, hspec, rfl⟩ := Option.map_eq_some_iff.mp hl
      have hl' := himm.loader spec hspec
      cases spec <;> exact hl' }

theorem Gives.putTemplate (h : s.Gives env) (name source : String) :
    ({ s with loader := s.loader.map (LoaderSpec.putTemplate name source) } : Setup).Gives
      { env with loader := env.loader.map (Loader.putTemplate name source) } := by
  refine { h with
    loader := (makeLoader_putTemplate s name source).trans ?_
    usable := fun l hl => ?_ }
  · rw [h.loader, map_pure]
  · obtain ⟨l', hl', rfl⟩ := Option.map_eq_some_iff.mp hl
    have husable := h.usable l' hl'
    cases l' <;> exact husable

end Setup

end Stencil
