import Stencil.Proofs.FreeNames
import Stencil.Proofs.Hops
import Stencil.Proofs.Setups

/-!
# Sessions and fresh environments

With immutable values a session has no memory but what it was told: what a step comes to is what
it would come to in an environment made afresh, from the loader as it is now, with the globals and
the shared data in the order they came, and with the slots compiled again from the sources and in
the modes they were compiled in. Renders leave no trace, whether they succeed or fail.
-/

namespace Stencil

open Render

def Action.outcome {α : Type} (x : Action α) (w : World) : Except Stop α :=
  match x.run w with
  | .ok a _ => .ok a
  | .error s _ => .error s

namespace Session

/-- What a step comes to in a session and the world it has got to. -/
def answer (x : Session × World) (st : Step) : Except Stop Reply :=
  ((x.1.step st).outcome x.2).map Prod.snd

/-- The session goes on after a step; one that fails leaves it as it is. -/
def proceed (x : Session × World) (st : Step) : Session × World :=
  match (x.1.step st).run x.2 with
  | .ok (s, _) w => (s, w)
  | .error _ w => (x.1, w)

end Session

namespace Step

/-- The data that the environment is given to keep are immutable, and it is kept itself. -/
def isImmutable : Step → Bool
  | .share entries | .addGlobals entries => Datum.fieldsImmutable entries
  | .shareUnder key => key.isImmutable
  | .dropEnvironment => false
  | _ => true

def isQuery : Step → Bool
  | .getSource _ => true
  | _ => false

def renders : Step → Bool
  | .run _ _ | .renderNamed _ _ | .renderText _ _ _ => true
  | _ => false

end Step

theorem Action.ComesBack.ofSettles {α : Type} {x : Action α} {r : Except Failure α}
    (h : x.Settles r) : x.ComesBack := by
  refine ⟨fun w a w' hrun => ?_, fun w s w' hrun => ?_⟩
  all_goals
    obtain ⟨notices, hw⟩ := h w
    rw [hw] at hrun
    cases r <;> cases hrun
    rfl

namespace Session

open Stencil.Action (ComesBack)

theorem renderTemplate_comesBack (s : Session) (t : Template) (a : RenderArguments) :
    (s.renderTemplate t a).ComesBack := by
  have hrender : (do
      let data ← Action.evaluate a.data.load
      let more ← Action.evaluate (Datum.loadFields a.more)
      return Reply.text (← t.render s.env data more).text : Action Reply).ComesBack := by
    refine .bind (.ofLocal (.evaluateUnder 0 _)) fun data => ?_
    refine .bind (.ofLocal (.evaluateUnder 0 _)) fun more => ?_
    exact .bind (t.renderBy_comesBack _ s.env data more) fun out => .ofLocal (.pure _)
  unfold renderTemplate
  cases s.alive with
  | false => exact .bind (.ofLocal (.fault _)) fun _ => hrender
  | true => exact hrender

theorem renderNamed_comesBack (s : Session) (name : String) (a : RenderArguments) :
    (s.renderNamed name a).ComesBack := by
  have hrender : (do
      let data ← Action.evaluate a.data.load
      let more ← Action.evaluate (Datum.loadFields a.more)
      return Reply.text (← s.env.render name data more).text : Action Reply).ComesBack := by
    refine .bind (.ofLocal (.evaluateUnder 0 _)) fun data => ?_
    refine .bind (.ofLocal (.evaluateUnder 0 _)) fun more => ?_
    exact .bind (s.env.renderBy_comesBack _ name data more) fun out => .ofLocal (.pure _)
  unfold renderNamed
  cases s.alive with
  | false =>
    refine .bind (.ofLocal (.loadUnder s.env 0 name)) fun t => ?_
    exact .bind (.ofLocal (.fault _)) fun _ => hrender
  | true => exact hrender

theorem slot_isLocal (s : Session) (name : String) : (s.slot name).IsLocal := by
  unfold slot
  cases s.slots.lookup name with
  | none => exact .fault _
  | some t => exact .pure t

theorem share_comesBack (env : Environment) (more : Bindings) : (env.share more).ComesBack :=
  .bind (.ofSettles (.notice _)) fun _ => .ofLocal (.pure _)

theorem step_comesBack (s : Session) (st : Step) : (s.step st).ComesBack := by
  have hcompile (source : Source) : (s.env.compileSource source).ComesBack :=
    .ofSettles (s.env.compileSource_settles _)
  have hworld : (get : Action World).ComesBack := by
    refine ⟨fun w a w' h => ?_, fun w stop w' h => ?_⟩
    · cases h
      rfl
    · cases h
  cases st with
  | share entries =>
    refine .bind (.ofLocal (.evaluateUnder 0 _)) fun more => ?_
    exact .bind (share_comesBack s.env more) fun env => .ofLocal (.pure _)
  | shareUnder key =>
    refine .bind (.ofLocal (.evaluateUnder 0 _)) fun v => ?_
    have hshare (more : Bindings) : (do
        let env ← s.env.share more
        return ({ s with env }, Reply.done) : Action (Session × Reply)).ComesBack :=
      .bind (share_comesBack s.env more) fun env => .ofLocal (.pure _)
    cases v with
    | dict r => exact .bind hworld fun w => hshare _
    | str name => exact hshare _
    | _ => exact .ofLocal (.fault _)
  | addGlobals entries =>
    exact .bind (.ofLocal (.evaluateUnder 0 _)) fun more => .ofLocal (.pure _)
  | compile slot source name => exact .bind (hcompile _) fun t => .ofLocal (.pure _)
  | load slot name => exact .bind (.ofLocal (.loadUnder s.env 0 name)) fun t => .ofLocal (.pure _)
  | run slot a =>
    refine .bind (.ofLocal (s.slot_isLocal slot)) fun t => ?_
    exact .bind (s.renderTemplate_comesBack t a) fun r => .ofLocal (.pure _)
  | renderNamed name a => exact .bind (s.renderNamed_comesBack name a) fun r => .ofLocal (.pure _)
  | renderText source name a =>
    refine .bind (hcompile _) fun t => ?_
    exact .bind (s.renderTemplate_comesBack t a) fun r => .ofLocal (.pure _)
  | getSource name =>
    unfold step
    cases s.env.loader with
    | none => exact .ofLocal (.fault _)
    | some l => exact .bind (.ofLocal (.find _ _ _ _ l)) fun found => .ofLocal (.pure _)
  | loaderNames =>
    unfold step
    dsimp only
    split
    · exact .ofLocal (.pure _)
    · exact .ofLocal (.fault _)
  | loaderRoots =>
    unfold step
    dsimp only
    split
    · exact .ofLocal (.pure _)
    · exact .ofLocal (.fault _)
  | sectionText slot name => exact .bind (.ofLocal (s.slot_isLocal slot)) fun t => .ofLocal (.pure _)
  | assign => exact .ofLocal (.fault _)
  | isOutside => exact .bind hworld fun w => .ofLocal (.pure _)
  | sharedData | globalNames | templateNames | putTemplate _ _ | putFile _ _ | environmentText
  | setLenient _ | dropEnvironment => exact .ofLocal (.pure _)

theorem renderTemplate_text {s : Session} {t : Template} {a : RenderArguments} {r : Reply}
    {w w' : World} (h : (s.renderTemplate t a).run w = .ok r w') : ∃ text, r = .text text := by
  unfold renderTemplate at h
  cases halive : s.alive with
  | false =>
    rw [halive] at h
    cases h
  | true =>
    rw [halive] at h
    obtain ⟨data, w₁, -, h⟩ := Action.bind_ok h
    obtain ⟨more, w₂, -, h⟩ := Action.bind_ok h
    obtain ⟨out, w₃, -, h⟩ := Action.bind_ok h
    cases h
    exact ⟨_, rfl⟩

theorem renderNamed_text {s : Session} {name : String} {a : RenderArguments} {r : Reply}
    {w w' : World} (h : (s.renderNamed name a).run w = .ok r w') : ∃ text, r = .text text := by
  unfold renderNamed at h
  cases halive : s.alive with
  | false =>
    rw [halive] at h
    obtain ⟨t, w₁, -, h⟩ := Action.bind_ok h
    cases h
  | true =>
    rw [halive] at h
    obtain ⟨data, w₁, -, h⟩ := Action.bind_ok h
    obtain ⟨more, w₂, -, h⟩ := Action.bind_ok h
    obtain ⟨out, w₃, -, h⟩ := Action.bind_ok h
    cases h
    exact ⟨_, rfl⟩

/-- The session that a step leads to holds nothing of a heap, and no more does the reply. -/
structure LeadsTo (x : Session × Reply) : Prop where
  env : x.1.env.IsPlain
  reply : ∀ ρ : Renaming, ρ.reply x.2 = x.2

theorem sharedEntries_plain {env : Environment} (henv : env.IsPlain) (ρ : Renaming) :
    ρ.reply (.entries env.sharedEntries) = .entries env.sharedEntries := by
  have hentries := Renaming.sharedEntries_value (ρ := ρ) env
  rw [henv.environment] at hentries
  exact congrArg Reply.entries hentries.symm

theorem not_dict_of_plain {v : Value} (hv : v.IsPlain) (r : Ref) : v ≠ .dict r := by
  rintro rfl
  have hmoved := hv (.behind ⟨#[.textual ""], #[], #[]⟩)
  simp only [Renaming.value, Value.dict.injEq, Renaming.behind] at hmoved
  exact absurd hmoved (by simp)

/-- The step of a session with immutable data leads to nothing that is in a heap. -/
theorem step_leadsTo {s : Session} (hs : s.env.IsPlain) {st : Step} (hst : st.isImmutable = true)
    (hquery : st.isQuery = false) {x : Session × Reply} {w w' : World}
    (h : (s.step st).run w = .ok x w') : LeadsTo x := by
  have hshared {b : Bindings} (hb : BindingsOf.IsPlain b) :
      ({ s.env with shared := s.env.shared.update b } : Environment).IsPlain :=
    { hs with shared := hs.shared.update hb }
  cases st with
  | share entries =>
    obtain ⟨b, hb, hplain⟩ := Datum.loadFields_immutable hst
    obtain ⟨b', w₁, hload, h⟩ := Action.bind_ok h
    rw [hb] at hload
    cases hload
    cases h
    exact ⟨hshared hplain, sharedEntries_plain (hshared hplain)⟩
  | shareUnder key =>
    obtain ⟨v, hv, hplain⟩ := Datum.load_immutable key hst
    obtain ⟨v', w₁, hload, h⟩ := Action.bind_ok h
    rw [hv] at hload
    cases hload
    cases v with
    | dict r => exact absurd rfl (not_dict_of_plain hplain r)
    | str name =>
      cases h
      exact ⟨hshared fun _ => rfl, fun _ => rfl⟩
    | _ => cases h
  | sharedData =>
    cases h
    exact ⟨hs, sharedEntries_plain hs⟩
  | addGlobals entries =>
    obtain ⟨b, hb, hplain⟩ := Datum.loadFields_immutable hst
    obtain ⟨b', w₁, hload, h⟩ := Action.bind_ok h
    rw [hb] at hload
    cases hload
    cases h
    exact ⟨{ hs with globals := hs.globals.update hplain }, fun _ => rfl⟩
  | compile slot source name =>
    obtain ⟨t, w₁, -, h⟩ := Action.bind_ok h
    cases h
    exact ⟨hs, fun _ => rfl⟩
  | load slot name =>
    obtain ⟨t, w₁, -, h⟩ := Action.bind_ok h
    cases h
    exact ⟨hs, fun _ => rfl⟩
  | run slot a =>
    obtain ⟨t, w₁, -, h⟩ := Action.bind_ok h
    obtain ⟨r, w₂, hr, h⟩ := Action.bind_ok h
    cases h
    obtain ⟨text, rfl⟩ := renderTemplate_text hr
    exact ⟨hs, fun _ => rfl⟩
  | renderNamed name a =>
    obtain ⟨r, w₂, hr, h⟩ := Action.bind_ok h
    cases h
    obtain ⟨text, rfl⟩ := renderNamed_text hr
    exact ⟨hs, fun _ => rfl⟩
  | renderText source name a =>
    obtain ⟨t, w₁, -, h⟩ := Action.bind_ok h
    obtain ⟨r, w₂, hr, h⟩ := Action.bind_ok h
    cases h
    obtain ⟨text, rfl⟩ := renderTemplate_text hr
    exact ⟨hs, fun _ => rfl⟩
  | getSource name => cases hquery
  | loaderNames =>
    unfold step at h
    dsimp only at h
    split at h
    · cases h
      exact ⟨hs, fun _ => rfl⟩
    · cases h
  | loaderRoots =>
    unfold step at h
    dsimp only at h
    split at h
    · cases h
      exact ⟨hs, fun _ => rfl⟩
    · cases h
  | putTemplate name source =>
    cases h
    refine ⟨{ hs with loader := fun ρ => ?_ }, fun _ => rfl⟩
    have hput : ρ.loader ∘ Loader.putTemplate name source =
        Loader.putTemplate name source ∘ ρ.loader :=
      funext fun l => (Renaming.putTemplate_loader name source l).symm
    rw [Option.map_map, hput, ← Option.map_map, hs.loader]
  | sectionText slot name =>
    obtain ⟨t, w₁, -, h⟩ := Action.bind_ok h
    cases h
    exact ⟨hs, fun _ => rfl⟩
  | isOutside =>
    obtain ⟨w₁, w₂, -, h⟩ := Action.bind_ok h
    cases h
    exact ⟨hs, fun _ => rfl⟩
  | assign => cases h
  | dropEnvironment => cases hst
  | globalNames | templateNames | putFile _ _ | environmentText | setLenient _ =>
    cases h
    exact ⟨{ hs with }, fun _ => rfl⟩

/-- It does not matter what a heap has when a session with immutable data goes on in it. -/
theorem step_anywhere {s : Session} (hs : s.env.IsPlain) {st : Step} (hst : st.isImmutable = true)
    (hquery : st.isQuery = false) {w : World} (hw : w.boundary = none) :
    (s.step st).outcome w = (s.step st).outcome .fresh := by
  have hfollows : Renaming.Follows (.behind w.heap) _ #[] _ _ := Renaming.step_follows s st
  have hfollows := hfollows .fresh w (Renaming.worlds_behind hw) (.refl _)
  rw [Renaming.session, hs.environment] at hfollows
  unfold Action.outcome
  generalize hrun : (s.step st).run .fresh = o, (s.step st).run w = o' at hfollows
  cases hfollows with
  | @ok x w₁ w₁' _ _ =>
    obtain ⟨henv, hreply⟩ := step_leadsTo hs hst hquery hrun
    rw [Renaming.sessionReply, Renaming.session, henv.environment, hreply]
  | error _ _ hstop => rw [hstop.same trivial]
  | lost hinexact => exact absurd trivial hinexact

end Session

/-- What a session has been told, as a setup that says it all, and what its slots hold: the sources
of their templates and whether these were compiled leniently. -/
structure Account where
  setup : Setup
  slots : List (String × Source × Bool)

namespace Account

def start (setup : Setup) : Account := ⟨setup, []⟩

def recompiled (p : String × Source × Bool) : Action (String × Template) := do
  return (p.1, ← Template.compile p.2.1 p.2.2)

def session (a : Account) : Action Session := do
  let env ← Environment.make a.setup
  let slots ← a.slots.mapM recompiled
  return { Session.start env with slots }

/-- What a step comes to in a fresh environment. -/
def answer (a : Account) (st : Step) : Except Stop Reply :=
  (do return (← (← a.session).step st).2 : Action Reply).outcome .fresh

def store (a : Account) (slot : String) (t : Template) : Account :=
  { a with slots := (slot, t.source, t.lenient) :: a.slots.filter (·.1 ≠ slot) }

/-- What is to be remembered of a step. -/
def noted (a : Account) (st : Step) : Account :=
  match st with
  | .share entries => { a with setup.shared := a.setup.shared ++ entries }
  | .shareUnder (.str name) => { a with setup.shared := a.setup.shared ++ [(name, .none)] }
  | .addGlobals entries => { a with setup.globals := a.setup.globals ++ entries }
  | .putTemplate name source =>
    { a with setup.loader := a.setup.loader.map (LoaderSpec.putTemplate name source) }
  | .putFile path content =>
    { a with setup.files := a.setup.files.add (FileTree.segments path) (.file content) }
  | .setLenient lenient => { a with setup.lenient := lenient }
  | .compile slot _ _ | .load slot _ =>
    match a.answer st with
    | .ok (.template t) => a.store slot t
    | _ => a
  | _ => a

/-- A slot holds the template that the account of it makes. -/
def Holds (p : String × Source × Bool) (q : String × Template) : Prop :=
  p.1 = q.1 ∧ Template.ofSource p.2.1 p.2.2 = .ok q.2

/-- The account tells what there is to know of a session in the world it has got to. -/
structure Covers (a : Account) (x : Session × World) : Prop where
  immutable : a.setup.IsImmutable
  env : a.setup.Gives x.1.env
  alive : x.1.alive = true
  slots : List.Forall₂ Holds a.slots x.1.slots
  outside : x.2.boundary = none

variable {a : Account} {x : Session × World}

theorem recompiled_settles {p : String × Source × Bool} {q : String × Template} (h : Holds p q) :
    (recompiled p).Settles (.ok q) := by
  obtain ⟨slot, source, lenient⟩ := p
  obtain ⟨slot', t⟩ := q
  obtain ⟨rfl, ht⟩ := h
  have hcompile := Template.compile_settles source lenient
  rw [ht] at hcompile
  exact hcompile.bind (g := fun t => .ok (slot, t)) fun t _ => .ofFailure (.ok (slot, t))

theorem mapM_recompiled {ps : List (String × Source × Bool)} {qs : List (String × Template)}
    (h : List.Forall₂ Holds ps qs) : (ps.mapM recompiled).Settles (.ok qs) := by
  induction h with
  | nil => exact .ofFailure (.ok [])
  | @cons p q ps qs hpq _ ih =>
    rw [List.mapM_cons]
    refine (recompiled_settles hpq).bind (g := fun _ => .ok (q :: qs)) fun q' hq' => ?_
    cases hq'
    refine ih.bind (g := fun _ => .ok (q :: qs)) fun qs' hqs' => ?_
    cases hqs'
    exact .ofFailure (.ok (q :: qs))

theorem Covers.session (h : a.Covers x) :
    ∃ w, a.session.run .fresh = .ok x.1 w ∧ w.boundary = none := by
  obtain ⟨notices, hmake⟩ := h.env.make
  obtain ⟨notices', hslots⟩ := mapM_recompiled h.slots ⟨.empty, none, notices⟩
  refine ⟨⟨.empty, none, notices'⟩, ?_, rfl⟩
  unfold Account.session
  rw [Action.bind_of_ok hmake, Action.bind_of_ok hslots]
  obtain ⟨⟨env, alive, slots⟩, w⟩ := x
  cases h.alive
  rfl

theorem outcome_bind {α β : Type} {y : Action α} {f : α → β} (w : World) :
    (do return f (← y) : Action β).outcome w = (y.outcome w).map f := by
  unfold Action.outcome
  rw [EStateM.run_bind]
  cases y.run w <;> rfl

theorem Covers.answer (h : a.Covers x) {st : Step} (hst : st.isImmutable = true)
    (hquery : st.isQuery = false) : Session.answer x st = a.answer st := by
  obtain ⟨w, hsession, hw⟩ := h.session
  have hplain := h.env.plain h.immutable
  have hfresh : a.answer st = ((x.1.step st).outcome w).map Prod.snd := by
    rw [← outcome_bind]
    unfold Account.answer Action.outcome
    rw [Action.bind_of_ok hsession]
  rw [hfresh, Session.answer, Session.step_anywhere hplain hst hquery hw,
    Session.step_anywhere hplain hst hquery h.outside]

theorem holds_filter {ps : List (String × Source × Bool)} {qs : List (String × Template)}
    (h : List.Forall₂ Holds ps qs) (slot : String) :
    List.Forall₂ Holds (ps.filter (·.1 ≠ slot)) (qs.filter (·.1 ≠ slot)) := by
  induction h with
  | nil => exact .nil
  | @cons p q ps qs hpq _ ih =>
    rw [List.filter_cons, List.filter_cons, hpq.1]
    split
    · exact .cons hpq ih
    · exact ih

theorem Covers.store (h : a.Covers x) {t : Template}
    (ht : Template.ofSource t.source t.lenient = .ok t) (slot : String) {w : World}
    (hw : w.boundary = none) : (a.store slot t).Covers (x.1.store slot t, w) :=
  { h with
    slots := .cons ⟨rfl, ht⟩ (holds_filter h.slots slot)
    outside := hw }

theorem ofSource_again {source : Source} {lenient : Bool} {t : Template}
    (h : Template.ofSource source lenient = .ok t) : Template.ofSource t.source t.lenient = .ok t := by
  have hsame : t.source = source ∧ t.lenient = lenient := by
    unfold Template.ofSource at h
    cases htree : source.tree with
    | error f =>
      rw [htree] at h
      cases h
    | ok read =>
      rw [htree] at h
      simp only [bind, Except.bind] at h
      split at h
      · cases h
      · cases h
        exact ⟨rfl, rfl⟩
  rw [hsame.1, hsame.2, h]

theorem ofSource_again_of_load {env : Environment} {calls : Nat} {name : String} {t : Template}
    {w w' : World} (h : (env.loadUnder calls name).run w = .ok t w') :
    Template.ofSource t.source t.lenient = .ok t := by
  unfold Environment.loadUnder at h
  cases hl : env.loader with
  | none =>
    rw [hl] at h
    cases h
  | some l =>
    rw [hl] at h
    obtain ⟨found, w₁, _, h⟩ := Action.bind_ok h
    obtain ⟨filename, ht⟩ := Environment.compileLoaded_ok h
    exact ofSource_again ht

theorem proceed_outside (hx : x.2.boundary = none) (st : Step) :
    (Session.proceed x st).2.boundary = none := by
  have hback := x.1.step_comesBack st
  unfold Session.proceed
  cases hrun : (x.1.step st).run x.2 with
  | ok y w => exact (hback.keeps _ _ _ hrun).trans hx
  | error s w => exact (hback.stopped _ _ _ hrun).trans hx

theorem Covers.stays (h : a.Covers x) (st : Step)
    (hst : ∀ y w, (x.1.step st).run x.2 = .ok y w → y.1 = x.1) :
    a.Covers (Session.proceed x st) := by
  have hsame : (Session.proceed x st).1 = x.1 := by
    unfold Session.proceed
    cases hrun : (x.1.step st).run x.2 with
    | ok y w => exact hst y w hrun
    | error s w => rfl
  exact ⟨h.immutable, hsame ▸ h.env, hsame ▸ h.alive, hsame ▸ h.slots,
    proceed_outside h.outside st⟩

/-- A step that makes a template for a slot, if it does not fail. -/
theorem Covers.fills (h : a.Covers x) {st : Step} (hst : st.isImmutable = true)
    (hquery : st.isQuery = false) (slot : String) (hnoted : a.noted st =
      match a.answer st with
      | .ok (.template t) => a.store slot t
      | _ => a)
    (hrun : ∀ y w, (x.1.step st).run x.2 = .ok y w → ∃ t, y = (x.1.store slot t, .template t) ∧
      Template.ofSource t.source t.lenient = .ok t) :
    (a.noted st).Covers (Session.proceed x st) := by
  have houtside := proceed_outside h.outside st
  have hanswer := h.answer hst hquery
  rw [hnoted, ← hanswer]
  unfold Session.answer Action.outcome Session.proceed at *
  cases hstep : (x.1.step st).run x.2 with
  | error s w =>
    rw [hstep] at houtside
    exact { h with outside := houtside }
  | ok y w =>
    obtain ⟨t, rfl, ht⟩ := hrun y w hstep
    rw [hstep] at houtside
    exact h.store ht slot houtside

theorem Covers.share (h : a.Covers x) {entries : List (String × Datum)} {b : Bindings}
    (himm : Datum.fieldsImmutable entries = true) (hb : Datum.loadFields entries = pure b)
    {w : World} (hw : w.boundary = none) :
    ({ a with setup.shared := a.setup.shared ++ entries } : Account).Covers
      ({ x.1 with env.shared := x.1.env.shared.update b }, w) where
  immutable :=
    { h.immutable with
      shared := by
        unfold Datum.fieldsImmutable
        rw [List.all_append]
        exact Bool.and_eq_true_iff.mpr ⟨h.immutable.shared, himm⟩ }
  env := h.env.share h.immutable hb
  alive := h.alive
  slots := h.slots
  outside := hw

theorem Covers.addGlobals (h : a.Covers x) {entries : List (String × Datum)} {b : Bindings}
    (himm : Datum.fieldsImmutable entries = true) (hb : Datum.loadFields entries = pure b)
    {w : World} (hw : w.boundary = none) :
    ({ a with setup.globals := a.setup.globals ++ entries } : Account).Covers
      ({ x.1 with env := x.1.env.addGlobals b }, w) where
  immutable :=
    { h.immutable with
      globals := by
        unfold Datum.fieldsImmutable
        rw [List.all_append]
        exact Bool.and_eq_true_iff.mpr ⟨h.immutable.globals, himm⟩ }
  env := h.env.addGlobals h.immutable hb
  alive := h.alive
  slots := h.slots
  outside := hw

theorem proceed_of_ok {st : Step} {s : Session} {r : Reply} {w : World}
    (h : (x.1.step st).run x.2 = .ok (s, r) w) : Session.proceed x st = (s, w) := by
  unfold Session.proceed
  rw [h]

theorem Covers.proceed (h : a.Covers x) {st : Step} (hst : st.isImmutable = true) :
    (a.noted st).Covers (Session.proceed x st) := by
  have hsame := h.stays st
  cases st with
  | share entries =>
    obtain ⟨b, hb, -⟩ := Datum.loadFields_immutable hst
    have hrun : ∃ r notices, (x.1.step (.share entries)).run x.2 =
        .ok ({ x.1 with env.shared := x.1.env.shared.update b }, r) { x.2 with notices } := by
      change ∃ r notices, (Action.evaluate (Datum.loadFields entries) >>= _).run x.2 = _
      rw [hb]
      exact ⟨_, _, rfl⟩
    obtain ⟨r, notices, hrun⟩ := hrun
    rw [proceed_of_ok hrun]
    exact h.share hst hb h.outside
  | shareUnder key =>
    by_cases hkey : ∃ name, key = .str name
    · obtain ⟨name, rfl⟩ := hkey
      exact h.share rfl rfl h.outside
    · have hnoted : a.noted (.shareUnder key) = a := by
        cases key with
        | str name => exact absurd ⟨name, rfl⟩ hkey
        | _ => rfl
      rw [hnoted]
      refine hsame fun y w' hrun => ?_
      obtain ⟨v, w₁, hload, hrun⟩ := Action.bind_ok hrun
      cases key with
      | str name => exact absurd ⟨name, rfl⟩ hkey
      | tuple items =>
        obtain ⟨vs, hvs, -⟩ := Datum.loadAll_immutable items hst
        rw [Datum.load, hvs] at hload
        cases hload
        cases hrun
      | list _ | dict _ | object _ | row _ | textual _ | iterator _ => cases hst
      | none | bool _ | int _ | float _ | bytes _ | range _ _ _ | host _ =>
        cases hload
        cases hrun
  | addGlobals entries =>
    obtain ⟨b, hb, -⟩ := Datum.loadFields_immutable hst
    have hrun : ∃ r, (x.1.step (.addGlobals entries)).run x.2 =
        .ok ({ x.1 with env := x.1.env.addGlobals b }, r) x.2 := by
      change ∃ r, (Action.evaluate (Datum.loadFields entries) >>= _).run x.2 = _
      rw [hb]
      exact ⟨_, rfl⟩
    obtain ⟨r, hrun⟩ := hrun
    rw [proceed_of_ok hrun]
    exact h.addGlobals hst hb h.outside
  | compile slot source name =>
    refine h.fills hst rfl slot rfl fun y w' hrun => ?_
    obtain ⟨t, w₁, ht, hrun⟩ := Action.bind_ok hrun
    cases hrun
    have hsource := ((x.1.env.compileSource_settles _).of_ok ht).1
    exact ⟨t, rfl, ofSource_again (Environment.ofSource_ok hsource)⟩
  | load slot name =>
    refine h.fills hst rfl slot rfl fun y w' hrun => ?_
    obtain ⟨t, w₁, ht, hrun⟩ := Action.bind_ok hrun
    cases hrun
    exact ⟨t, rfl, ofSource_again_of_load ht⟩
  | putTemplate name source =>
    exact { h with
      immutable := h.immutable.putTemplate name source
      env := h.env.putTemplate name source }
  | putFile path content =>
    exact { h with
      immutable := { h.immutable with }
      env := { h.env with files := congrArg (fun t : FileTree =>
        t.add (FileTree.segments path) (.file content)) h.env.files } }
  | setLenient lenient =>
    exact { h with
      immutable := { h.immutable with }
      env := { h.env with lenient := rfl } }
  | dropEnvironment => cases hst
  | run slot a =>
    refine hsame fun y w' hrun => ?_
    obtain ⟨t, w₁, -, hrun⟩ := Action.bind_ok hrun
    obtain ⟨r, w₂, -, hrun⟩ := Action.bind_ok hrun
    cases hrun
    rfl
  | renderNamed name a =>
    refine hsame fun y w' hrun => ?_
    obtain ⟨r, w₂, -, hrun⟩ := Action.bind_ok hrun
    cases hrun
    rfl
  | renderText source name a =>
    refine hsame fun y w' hrun => ?_
    obtain ⟨t, w₁, -, hrun⟩ := Action.bind_ok hrun
    obtain ⟨r, w₂, -, hrun⟩ := Action.bind_ok hrun
    cases hrun
    rfl
  | getSource name =>
    refine hsame fun y w' hrun => ?_
    unfold Session.step at hrun
    cases hl : x.1.env.loader with
    | none =>
      rw [hl] at hrun
      cases hrun
    | some l =>
      rw [hl] at hrun
      obtain ⟨found, w₁, -, hrun⟩ := Action.bind_ok hrun
      cases hrun
      rfl
  | loaderNames =>
    refine hsame fun y w' hrun => ?_
    unfold Session.step at hrun
    dsimp only at hrun
    split at hrun <;> cases hrun
    rfl
  | loaderRoots =>
    refine hsame fun y w' hrun => ?_
    unfold Session.step at hrun
    dsimp only at hrun
    split at hrun <;> cases hrun
    rfl
  | sectionText slot name =>
    refine hsame fun y w' hrun => ?_
    obtain ⟨t, w₁, -, hrun⟩ := Action.bind_ok hrun
    cases hrun
    rfl
  | isOutside =>
    refine hsame fun y w' hrun => ?_
    obtain ⟨w₁, w₂, -, hrun⟩ := Action.bind_ok hrun
    cases hrun
    rfl
  | assign =>
    refine hsame fun y w' hrun => ?_
    cases hrun
  | sharedData | globalNames | templateNames | environmentText =>
    refine hsame fun y w' hrun => ?_
    cases hrun
    rfl

theorem covers_start {setup : Setup} (himm : setup.IsImmutable) {env : Environment} {w : World}
    (hmake : (Environment.make setup).run .fresh = .ok env w) :
    (start setup).Covers (Session.start env, w) where
  immutable := himm
  env := Setup.gives_of_make himm hmake
  alive := rfl
  slots := .nil
  outside := by
    obtain ⟨notices, hrun⟩ := (Setup.gives_of_make himm hmake).make
    rw [hmake] at hrun
    cases hrun
    rfl

theorem Covers.proceed_all (h : a.Covers x) {steps : List Step}
    (hsteps : ∀ st ∈ steps, st.isImmutable = true) :
    (steps.foldl noted a).Covers (steps.foldl Session.proceed x) := by
  induction steps generalizing a x with
  | nil => exact h
  | cons st steps ih =>
    obtain ⟨hst, hsteps⟩ := List.forall_mem_cons.mp hsteps
    exact ih (h.proceed hst) hsteps

theorem noted_host (a : Account) (st : Step) : (a.noted st).setup.host = a.setup.host := by
  unfold noted
  split
  case h_7 | h_8 => split <;> rfl
  all_goals rfl

theorem noted_all_host (steps : List Step) (a : Account) :
    (steps.foldl noted a).setup.host = a.setup.host := by
  induction steps generalizing a with
  | nil => rfl
  | cons st steps ih => exact (ih (a.noted st)).trans (a.noted_host st)

end Account

namespace BindingsOf

def latest? (b : Bindings) (id : String) : Option Value := BindingsOf.get? b.reverse id

theorem latest?_cons (name : String) (v : Value) (b : Bindings) (id : String) :
    latest? ((name, v) :: b) id = (latest? b id).or (if id = name then some v else none) := by
  unfold latest? get?
  rw [List.reverse_cons, List.lookup_append, List.lookup_cons]
  by_cases h : id = name
  · rw [if_pos h, beq_iff_eq.mpr h]
  · rw [if_neg h, beq_eq_false_iff_ne.mpr h, List.lookup_nil]

/-- Bindings put over others come first, the last of them before the rest. -/
theorem update_get? (b more : Bindings) (id : String) :
    (b.update more).get? id = (latest? more id).or (b.get? id) := by
  unfold update
  induction more generalizing b with
  | nil => rfl
  | cons e more ih =>
    obtain ⟨name, v⟩ := e
    rw [List.foldl_cons, ih, latest?_cons, get?_put, Option.or_assoc]
    by_cases h : id = name
    · rw [if_pos h, if_pos h]
      rfl
    · rw [if_neg h, if_neg h]
      rfl

theorem keys_put (k : String) (v : Value) : ∀ b : Bindings,
    (b.put k v).keys = if k ∈ b.keys then b.keys else b.keys ++ [k]
  | [] => rfl
  | (k', v') :: b => by
    have hkeys : keys ((k', v') :: b) = k' :: keys b := rfl
    rw [hkeys, put]
    by_cases h : k' = k
    · rw [if_pos h, h, if_pos List.mem_cons_self]
      rfl
    · have hcons : keys ((k', v') :: put b k v) = k' :: keys (put b k v) := rfl
      rw [if_neg h, hcons, keys_put k v b]
      by_cases hmem : k ∈ keys b
      · rw [if_pos hmem, if_pos (List.mem_cons_of_mem _ hmem)]
      · have hnew : k ∉ k' :: keys b := fun hin =>
          (List.mem_cons.mp hin).elim (fun heq => h heq.symm) hmem
        rw [if_neg hmem, if_neg hnew]
        rfl

theorem nodup_update {b : Bindings} (hb : b.keys.Nodup) (more : Bindings) :
    (b.update more).keys.Nodup := by
  unfold update
  induction more generalizing b with
  | nil => exact hb
  | cons e more ih =>
    refine ih ?_
    rw [keys_put]
    split
    · exact hb
    · rename_i hnew
      exact List.nodup_append.mpr ⟨hb, List.nodup_singleton _, fun a ha c hc heq =>
        hnew (List.mem_singleton.mp hc ▸ heq ▸ ha)⟩

theorem latest?_of_not_mem {b : Bindings} {id : String} (h : id ∉ b.keys) : latest? b id = none := by
  induction b with
  | nil => rfl
  | cons e b ih =>
    obtain ⟨hne, hmem⟩ := not_or.mp (mt List.mem_cons.mpr h)
    rw [latest?_cons, ih hmem, if_neg hne, Option.none_or]

theorem latest?_of_nodup {b : Bindings} (hb : b.keys.Nodup) (id : String) :
    latest? b id = b.get? id := by
  induction b with
  | nil => rfl
  | cons e b ih =>
    obtain ⟨hnew, hb⟩ := List.nodup_cons.mp hb
    rw [latest?_cons]
    unfold get?
    rw [List.lookup_cons]
    by_cases h : id = e.1
    · rw [latest?_of_not_mem (h ▸ hnew), if_pos h, beq_iff_eq.mpr h, Option.none_or]
    · rw [ih hb, if_neg h, beq_eq_false_iff_ne.mpr h, Option.or_none]
      rfl

end BindingsOf

def Value.given? (h : Heap) (id : String) : Value → Option Value
  | .dict r => entry? (h.dictEntries r) id
  | _ => .none

namespace Template

theorem renderData_get? {env : Environment} {data : Value} {more : Bindings} {d : RenderData}
    {w w' : World} (h : (renderData env data more).run w = .ok d w') (id : String) :
    d.names.get? id = (BindingsOf.latest? more id).or
      ((Value.given? w.heap id data).or (env.baseData.get? id)) := by
  have hgiven (given : Array (Value × Value)) :
      ((Render.dataWith env.baseData given).names.update more).get? id =
        (BindingsOf.latest? more id).or ((Value.entry? given id).or (env.baseData.get? id)) := by
    rw [BindingsOf.update_get?, Render.dataWith_get?]
  cases data with
  | none =>
    cases h
    exact hgiven #[]
  | dict r =>
    cases h
    exact hgiven _
  | _ => cases h

end Template

theorem Evaluator.standard_name {scope : Scope} {id : String}
    (hfree : IsFree scope.loops scope.context id) {h : Heap} {v : Value}
    (hv : (h.data.getD scope.data default).names.get? id = some v) (n : Nat) :
    (standard.eval scope (.name id)).run n h = .ok v h := by
  have hname : standard.eval scope (.name id) = scope.lookup id := by
    unfold standard deepestStep
    rw [run_succ]
    rfl
  rw [hname, Scope.lookup_of_isFree hfree, Scope.dataValue_run]
  unfold Scope.dataAnswer
  rw [hv]

namespace Session

/-- A session that begins as `x` is like fresh environments that are set up from `setup` and from
what the session is told. -/
structure IsLikeFresh (setup : Setup) (x : Session × World) : Prop where
  /-- What a step comes to after others is what it comes to in a fresh environment. -/
  fresh : ∀ steps : List Step, (∀ st ∈ steps, st.isImmutable = true) →
    ∀ st : Step, st.isImmutable = true → st.isQuery = false →
      answer (steps.foldl proceed x) st = (steps.foldl Account.noted (.start setup)).answer st
  /-- It does not matter where among the others templates are rendered, and how that ends. -/
  traceless : ∀ steps steps' : List Step, (∀ st ∈ steps, st.isImmutable = true) →
    (∀ st ∈ steps', st.isImmutable = true) →
    steps.filter (!·.renders) = steps'.filter (!·.renders) →
    ∀ st : Step, st.isImmutable = true → st.isQuery = false →
      answer (steps.foldl proceed x) st = answer (steps'.foldl proceed x) st
  /-- The last value counts that a name is given by a keyword, else by the mapping, else when data
  were shared, else as a global; builtins come last. -/
  precedence : ∀ steps : List Step, (∀ st ∈ steps, st.isImmutable = true) →
    ∀ shared globals : Bindings,
      Datum.loadFields (steps.foldl Account.noted (.start setup)).setup.shared = pure shared →
      Datum.loadFields (steps.foldl Account.noted (.start setup)).setup.globals = pure globals →
    ∀ (data : Value) (more : Bindings) (d : RenderData) (w w' : World),
      (Template.renderData (steps.foldl proceed x).1.env data more).run w = .ok d w' →
    ∀ id, d.names.get? id = (BindingsOf.latest? more id).or ((data.given? w.heap id).or
      ((BindingsOf.latest? shared id).or ((BindingsOf.latest? globals id).or
        (Environment.builtins.get? id))))
  /-- This value is what the name means where it is free. -/
  meaning : ∀ (scope : Scope) (id : String), IsFree scope.loops scope.context id →
    ∀ (h : Heap) (v : Value), (h.data.getD scope.data default).names.get? id = some v →
    ∀ n, (Evaluator.standard.eval scope (.name id)).run n h = .ok v h

theorem noted_filter (a : Account) (steps : List Step) :
    steps.foldl Account.noted a = (steps.filter (!·.renders)).foldl Account.noted a := by
  induction steps generalizing a with
  | nil => rfl
  | cons st steps ih =>
    rw [List.filter_cons, List.foldl_cons]
    cases hrenders : st.renders with
    | false => exact ih _
    | true =>
      have hnoted : a.noted st = a := by
        cases st <;> first | rfl | cases hrenders
      rw [hnoted]
      exact ih a

/-- With immutable data every step of a session comes to what it comes to in an environment that
is made afresh from what the session has been told before. -/
theorem like_fresh {setup : Setup} (himm : setup.IsImmutable) {env : Environment} {w : World}
    (hmake : (Environment.make setup).run .fresh = .ok env w) :
    IsLikeFresh setup (start env, w) := by
  have hcovers := Account.covers_start himm hmake
  have hfresh (steps : List Step) (hsteps : ∀ st ∈ steps, st.isImmutable = true) (st : Step)
      (hst : st.isImmutable = true) (hquery : st.isQuery = false) :
      answer (steps.foldl proceed (start env, w)) st =
        (steps.foldl Account.noted (.start setup)).answer st :=
    (hcovers.proceed_all hsteps).answer hst hquery
  refine ⟨hfresh, fun steps steps' hsteps hsteps' hsame st hst hquery => ?_, ?_, ?_⟩
  · rw [hfresh steps hsteps st hst hquery, hfresh steps' hsteps' st hst hquery,
      noted_filter _ steps, hsame, ← noted_filter _ steps']
  · intro steps hsteps shared globals hshared hglobals data more d w₁ w₂ hdata id
    have hgives := (hcovers.proceed_all hsteps).env
    obtain ⟨b, hb, henv⟩ := hgives.shared
    obtain ⟨b', hb', henv'⟩ := hgives.globals
    cases Eval.pure_injective (hb.symm.trans hshared)
    cases Eval.pure_injective (hb'.symm.trans hglobals)
    have hnodup := BindingsOf.nodup_update (b := []) .nil shared
    rw [Template.renderData_get? hdata, Environment.baseData, henv, henv', BindingsOf.update_get?,
      BindingsOf.update_get? Environment.builtins, BindingsOf.latest?_of_nodup hnodup,
      BindingsOf.update_get? []]
    have hnone : BindingsOf.get? ([] : Bindings) id = none := rfl
    rw [hnone, Option.or_none]
  · exact fun scope id hfree h v hv n => Evaluator.standard_name hfree hv n

/-- A table of one page that shows a global and includes a partial that is not there. -/
def exampleSetup : Setup where
  loader := some (.table [("page", "\x7b\x7b a \x7d\x7d@include('part')")])
  globals := [("a", .int 1)]
  limit := none
  lenient := false
  shared := [("b", .str "shared")]
  files := .empty
  host := .even

/-- A page is compiled, rendering it fails, the partial is put in, and then it is rendered again. -/
def exampleSteps : List Step :=
  [.load "slot" "page", .run "slot" ⟨.none, []⟩, .putTemplate "part" "\x7b\x7b b \x7d\x7d",
    .addGlobals [("a", .int 2)]]

theorem example_like_fresh : exampleSetup.IsImmutable ∧
    ∃ env w, (Environment.make exampleSetup).run .fresh = .ok env w ∧
      answer (exampleSteps.foldl proceed (start env, w)) (.run "slot" ⟨.none, []⟩) =
        (exampleSteps.foldl Account.noted (.start exampleSetup)).answer
          (.run "slot" ⟨.none, []⟩) := by
  have himm : exampleSetup.IsImmutable := by
    refine ⟨fun l hl => ?_, rfl, rfl⟩
    cases hl
    rfl
  refine ⟨himm, _, _, rfl, ?_⟩
  exact (like_fresh himm rfl).fresh exampleSteps (by decide) _ rfl rfl

end Session

end Stencil
