import Stencil.Proofs.JoinedRenders
import Stencil.Proofs.SafeValues

/-!
# Sources of complete lines

What comes of a source that ends a line and of a text behind it is settled by the two alone: no
token and no search for the end of one goes over the end of the line, the tokens of the text are
what they are without the lines in front of it, and so is what it renders to with immutable data.
-/

namespace Stencil

open Render

namespace Value

def ArePlain (entries : Array (Value × Value)) : Prop :=
  ∀ e ∈ entries, e.1.IsPlain ∧ e.2.IsPlain

variable {h : Heap} {entries more new : Array (Value × Value)}

theorem ArePlain.renamed (he : ArePlain entries) (ρ : Renaming) :
    entries.map ρ.entry = entries := by
  calc entries.map ρ.entry
    _ = entries.map id := Array.map_congr_left fun e hmem =>
      Prod.ext ((he e hmem).1 ρ) ((he e hmem).2 ρ)
    _ = entries := Array.map_id entries

theorem ArePlain.putEntry (he : ArePlain entries) {k v : Value} (hk : k.IsPlain) (hv : v.IsPlain)
    (hput : Value.putEntry h entries k v = .ok new) : ArePlain new := by
  unfold Value.putEntry at hput
  obtain ⟨found, -, hput⟩ := Except.ok_of_bind hput
  cases found with
  | none =>
    cases hput
    intro e hmem
    rcases Array.mem_push.mp hmem with hmem | rfl
    · exact he e hmem
    · exact ⟨hk, hv⟩
  | some i =>
    cases hput
    intro e hmem
    obtain ⟨j, hj⟩ := Array.getElem?_of_mem hmem
    rw [Array.getElem?_modify] at hj
    split at hj
    · obtain ⟨e', he', rfl⟩ := Option.map_eq_some_iff.mp hj
      exact ⟨(he e' (Array.mem_of_getElem? he')).1, hv⟩
    · exact he e (Array.mem_of_getElem? hj)

theorem ArePlain.putEntries (he : ArePlain entries) (hmore : ArePlain more)
    (hput : Value.putEntries h entries more = .ok new) : ArePlain new := by
  unfold Value.putEntries at hput
  rw [← Array.foldlM_toList] at hput
  replace hmore : ∀ e ∈ more.toList, e.1.IsPlain ∧ e.2.IsPlain :=
    fun e hmem => hmore e (Array.mem_toList_iff.mp hmem)
  generalize more.toList = es at hput hmore
  induction es generalizing entries with
  | nil =>
    cases hput
    exact he
  | cons e es ih =>
    rw [List.foldlM_cons] at hput
    obtain ⟨next, hnext, hput⟩ := Except.ok_of_bind hput
    obtain ⟨hfirst, hes⟩ := List.forall_mem_cons.mp hmore
    exact ih (he.putEntry hfirst.1 hfirst.2 hnext) hput hes

end Value

namespace RenderArguments

/-- Whether nothing can change the data of a render: they are no container, or the entries of a
mapping with immutable keys and values. -/
def isImmutable (a : RenderArguments) : Bool :=
  (match a.data with
    | .dict entries => entries.all fun e => e.1.isImmutable && e.2.isImmutable
    | data => data.isImmutable) && Datum.fieldsImmutable a.more

/-- Puts the data of a render into the heap. -/
def given (a : RenderArguments) (env : Environment) : Action Ref := do
  let data ← Action.evaluate a.data.load
  let more ← Action.evaluate (Datum.loadFields a.more)
  let d ← Template.renderData env data more
  Action.evaluate (Eval.newData d)

end RenderArguments

theorem Datum.loadEntries_immutable {entries : List (Datum × Datum)}
    (h : (entries.all fun e => e.1.isImmutable && e.2.isImmutable) = true) :
    ∃ pairs : List (Value × Value), Datum.loadEntries entries = pure pairs ∧
      Value.ArePlain pairs.toArray := by
  induction entries with
  | nil => exact ⟨[], rfl, nofun⟩
  | cons e entries ih =>
    obtain ⟨he, hentries⟩ := Bool.and_eq_true_iff.mp h
    obtain ⟨hk, hd⟩ := Bool.and_eq_true_iff.mp he
    obtain ⟨key, hkey, hplain⟩ := Datum.load_immutable e.1 hk
    obtain ⟨v, hv, hplain'⟩ := Datum.load_immutable e.2 hd
    obtain ⟨pairs, hpairs, hplains⟩ := ih hentries
    refine ⟨(key, v) :: pairs, ?_, fun p hp => ?_⟩
    · obtain ⟨k, d⟩ := e
      rw [loadEntries, loadEntry, hkey, hv, hpairs]
      rfl
    · rcases List.mem_cons.mp (List.mem_toArray.mp hp) with rfl | hp
      · exact ⟨hplain, hplain'⟩
      · exact hplains p (List.mem_toArray.mpr hp)

theorem Render.dataWith_plain {base : Bindings} (hbase : BindingsOf.IsPlain base)
    {entries : Array (Value × Value)} (hentries : Value.ArePlain entries) {more : Bindings}
    (hmore : BindingsOf.IsPlain more) : RenderData.IsPlain
      { dataWith base entries with names := (dataWith base entries).names.update more } := by
  intro ρ
  have hdata := ρ.dataWith_value base entries
  rw [hbase, hentries.renamed] at hdata
  have hnames : ρ.bindings (dataWith base entries).names = (dataWith base entries).names :=
    congrArg RenderData.names hdata.symm
  have hkeys : (dataWith base entries).otherKeys.map ρ.value = (dataWith base entries).otherKeys :=
    congrArg RenderData.otherKeys hdata.symm
  unfold Renaming.renderData
  dsimp only
  rw [ρ.bindings_update, hmore, hnames, hkeys]

theorem Value.arePlain_empty : Value.ArePlain #[] := fun _ he => absurd he (Array.not_mem_empty _)

namespace RenderArguments

variable {env : Environment} {a : RenderArguments}

theorem given_entered {cells : Array Cell} {data : Value} {more : Bindings} {d : RenderData}
    (hload : ∀ w, w.heap = .empty → (Action.evaluate a.data.load).run w =
      .ok data { w with heap := ⟨cells, #[], #[]⟩ })
    (hmore : Datum.loadFields a.more = pure more)
    (hd : ∀ w : World, w.heap.cells = cells →
      (Template.renderData env data more).run w = .ok d w)
    {w : World} (hw : w.heap = .empty) :
    (a.given env).run w = .ok 0 { w with heap := ⟨cells, #[], #[d]⟩ } := by
  unfold given
  rw [Action.bind_of_ok (hload w hw), hmore, Action.evaluate_pure, pure_bind,
    Action.bind_of_ok (hd _ rfl)]
  rfl

theorem load_dict {entries : List (Datum × Datum)} {pairs : List (Value × Value)}
    (hpairs : Datum.loadEntries entries = pure pairs) {w : World} (hw : w.heap = .empty) :
    (Action.evaluate (Datum.dict entries).load).run w =
      match Value.putEntries .empty #[] pairs.toArray with
      | .ok es => .ok (.dict 0) { w with heap := ⟨#[.dict es], #[], #[]⟩ }
      | .error fault => .error (.failed (.fault fault)) w := by
  obtain ⟨heap, boundary, notices⟩ := w
  obtain rfl : heap = .empty := hw
  have hrun : (Datum.dict entries).load.run 0 .empty = (Eval.ofExcept
      (Value.putEntries .empty #[] pairs.toArray) >>= Eval.newDict).run 0 .empty := by
    rw [Datum.load, hpairs]
    rfl
  change Action.evaluateUnder 0 _ _ = _
  unfold Action.evaluateUnder
  rw [hrun]
  cases Value.putEntries .empty #[] pairs.toArray <;> rfl

/-- With immutable data, what a render starts with is the same wherever the heap is empty. -/
theorem given_cases (henv : env.IsPlain) (ha : a.isImmutable = true) :
    (∃ cells d, d.IsPlain ∧ ∀ w, w.heap = .empty →
      (a.given env).run w = .ok 0 { w with heap := ⟨cells, #[], #[d]⟩ }) ∨
    ∀ w, w.heap = .empty → ∀ r w', (a.given env).run w ≠ .ok r w' := by
  obtain ⟨data, more⟩ := a
  obtain ⟨hdata, hmore⟩ := Bool.and_eq_true_iff.mp ha
  obtain ⟨b, hb, hplain⟩ := Datum.loadFields_immutable hmore
  have hbase : BindingsOf.IsPlain env.baseData := henv.globals.update henv.shared
  by_cases hdict : ∃ entries, data = .dict entries
  · obtain ⟨entries, rfl⟩ := hdict
    obtain ⟨pairs, hpairs, hplains⟩ := Datum.loadEntries_immutable hdata
    have hload {w : World} (hw : w.heap = .empty) := load_dict hpairs hw
    cases hput : Value.putEntries .empty #[] pairs.toArray with
    | error fault =>
      simp only [hput] at hload
      refine .inr fun w hw r w' h => ?_
      obtain ⟨v, w₁, hv, -⟩ := Action.bind_ok h
      rw [hload hw] at hv
      cases hv
    | ok es =>
      simp only [hput] at hload
      have hes : Value.ArePlain es := Value.arePlain_empty.putEntries hplains hput
      refine .inl ⟨#[.dict es], _, dataWith_plain hbase hes hplain, fun w hw =>
        given_entered (fun w hw => hload hw) hb (fun w hw => ?_) hw⟩
      have hentries : w.heap.dictEntries 0 = es := by
        unfold Heap.dictEntries
        rw [hw]
        rfl
      rw [← hentries]
      rfl
  · obtain ⟨v, hv, hplain'⟩ := Datum.load_immutable data (by
      cases data <;> first | exact hdata | exact absurd ⟨_, rfl⟩ hdict)
    have hload {w : World} : (Action.evaluate data.load).run w = .ok v w := by
      rw [hv]
      rfl
    by_cases hnone : v = .none
    · subst hnone
      have hrender (w : World) (_ : w.heap.cells = #[]) :
          (Template.renderData env .none b).run w = .ok _ w := rfl
      refine .inl ⟨#[], _, dataWith_plain hbase Value.arePlain_empty hplain, fun w hw =>
        given_entered (fun w hw => ?_) hb hrender hw⟩
      obtain ⟨heap, boundary, notices⟩ := w
      obtain rfl : heap = .empty := hw
      exact hload
    · refine .inr fun w hw r w' h => ?_
      obtain ⟨v', w₁, hv', h⟩ := Action.bind_ok h
      rw [hload] at hv'
      cases hv'
      obtain ⟨more, w₂, hmore, h⟩ := Action.bind_ok h
      obtain ⟨d, w₃, hd, h⟩ := Action.bind_ok h
      cases v with
      | none => exact hnone rfl
      | dict r => exact Session.not_dict_of_plain hplain' r rfl
      | _ => cases hd

end RenderArguments

/-- An action ends well inside a boundary if it does so when it begins there. -/
theorem Action.within_ok_iff {α : Type} {b : Boundary} {x : Action α} {w : World} {a : α} :
    (∃ w', (within b x).run w = .ok a w') ↔
      ∃ w', x.run { w with boundary := some b } = .ok a w' := by
  have hrun : (within b x).run w = within b x w := rfl
  rw [hrun]
  unfold within
  cases x.run { w with boundary := some b } with
  | ok a' w' =>
    constructor
    · rintro ⟨w'', ⟨⟩⟩
      exact ⟨w', rfl⟩
    · rintro ⟨w'', ⟨⟩⟩
      exact ⟨_, rfl⟩
  | error stop w' =>
    constructor
    · rintro ⟨w'', ⟨⟩⟩
    · rintro ⟨w'', ⟨⟩⟩

namespace Session

variable {s : Session} {a : RenderArguments}

def bodyWorld (cells : Array Cell) (d : RenderData) (b : Boundary) (notices : Array Notice) :
    World := ⟨⟨cells, #[[]], #[d]⟩, some b, notices⟩

def pageBoundary (env : Environment) (t : Template) : Boundary :=
  .page t.name t.filename (some t.source.text) env.limit

theorem renderTemplate_eq (halive : s.alive = true) (t : Template) (a : RenderArguments) :
    s.renderTemplate t a = (do
      let r ← a.given s.env
      let out ← Action.within (pageBoundary s.env t)
        (part s.env Evaluator.standard s.env.host.room (.whole t) r [])
      return .text out.text) := by
  unfold renderTemplate
  rw [halive]
  unfold RenderArguments.given Template.render Template.renderBy
  simp only [bind_assoc]
  rfl

/-- A page renders if its body does, in a frame of its own and with the data that are given. -/
theorem page_renders (halive : s.alive = true) {t : Template} {ns : List Node}
    (ht : t.tree = .page ns) {cells : Array Cell} {d : RenderData}
    (hgiven : ∀ w, w.heap = .empty →
      (a.given s.env).run w = .ok 0 { w with heap := ⟨cells, #[], #[d]⟩ })
    {w : World} (hw : w.heap = .empty) {text : String} :
    (∃ w', (s.renderTemplate t a).run w = .ok (.text text) w') ↔
      ∃ out w', (nodes (pageReach s.env s.env.host.nested 0) (pageScope t.lenient 0 0) #[] ns).run
        (bodyWorld cells d (pageBoundary s.env t) w.notices) = .ok out w' ∧ out.text = text := by
  have hbody : (part s.env Evaluator.standard s.env.host.room (.whole t) 0 []).run
      { w with heap := ⟨cells, #[], #[d]⟩, boundary := some (pageBoundary s.env t) } =
        (nodes (pageReach s.env s.env.host.nested 0) (pageScope t.lenient 0 0) #[] ns).run
          (bodyWorld cells d (pageBoundary s.env t) w.notices) := by
    change (part s.env Evaluator.standard (s.env.host.nested + 1) (.whole t) 0 []).run _ = _
    rw [part_page s.env Evaluator.standard s.env.host.nested ht]
    rfl
  rw [renderTemplate_eq halive, Action.bind_of_ok (hgiven w hw)]
  constructor
  · rintro ⟨w', h⟩
    obtain ⟨out, w₁, hpart, h⟩ := Action.bind_ok h
    cases h
    obtain ⟨w₂, hpart⟩ := Action.within_ok_iff.mp ⟨_, hpart⟩
    exact ⟨out, w₂, hbody ▸ hpart, rfl⟩
  · rintro ⟨out, w', h, rfl⟩
    obtain ⟨w₁, hpart⟩ := (Action.within_ok_iff
      (w := { w with heap := ⟨cells, #[], #[d]⟩ })).mpr ⟨w', hbody.trans h⟩
    exact ⟨w₁, Action.bind_of_ok hpart _⟩

/-- The answer to a source that is rendered: it is compiled, and its template renders. -/
theorem answer_text_iff {x : Session × World} {source : String} {name : Option String}
    {text : String} : answer x (.renderText source name a) = .ok (.text text) ↔
      ∃ t w w', (x.1.env.compile source name).run x.2 = .ok t w ∧
        (x.1.renderTemplate t a).run w = .ok (.text text) w' := by
  unfold answer Action.outcome
  constructor
  · intro h
    cases hrun : (x.1.step (.renderText source name a)).run x.2 with
    | error stop w =>
      rw [hrun] at h
      cases h
    | ok r w' =>
      rw [hrun] at h
      obtain ⟨t, w, hcompile, hrun⟩ := Action.bind_ok hrun
      obtain ⟨reply, w₁, hrender, hrun⟩ := Action.bind_ok hrun
      cases hrun
      cases h
      exact ⟨t, w, w', hcompile, hrender⟩
  · rintro ⟨t, w, w', hcompile, hrender⟩
    have hrun : (x.1.step (.renderText source name a)).run x.2 = .ok (x.1, .text text) w' := by
      change (x.1.env.compile source name >>= _).run x.2 = _
      rw [Action.bind_of_ok hcompile, Action.bind_of_ok hrender]
      rfl
    rw [hrun]
    rfl

end Session

def Source.IsPage (s : Source) : Prop := ∃ nodes warnings, s.tree = .ok (.page nodes, warnings)

def Source.isPage (s : Source) : Bool :=
  match s.tree with
  | .ok (.page _, _) => true
  | _ => false

theorem Source.isPage_iff {s : Source} : s.isPage = true ↔ s.IsPage := by
  unfold Source.isPage
  split
  next nodes warnings h => exact iff_of_true rfl ⟨nodes, warnings, h⟩
  next h => exact iff_of_false Bool.false_ne_true fun ⟨nodes, warnings, hs⟩ => h nodes warnings hs

instance (s : Source) : Decidable s.IsPage := decidable_of_iff _ Source.isPage_iff

theorem Source.IsPage.layout? {s : Source} (hs : s.IsPage) {lenient : Bool} {t : Template}
    (ht : Template.ofSource s lenient = .ok t) : t.tree.layout? = none := by
  obtain ⟨nodes, warnings, htree⟩ := hs
  obtain ⟨rfl, warnings', htree'⟩ := Template.ofSource_ok ht
  rw [← (Prod.mk.inj (Except.ok.inj (htree.symm.trans htree'))).1]
  rfl

theorem Text.Position.below_injective (n : Nat) : Function.Injective (Position.below n) := by
  rintro ⟨line, column⟩ ⟨line', column'⟩ h
  simpa [below] using h

namespace Session

def text? (x : Session × World) (st : Step) : Option String :=
  match answer x st with
  | .ok (.text s) => some s
  | _ => none

theorem text?_eq_some {x : Session × World} {st : Step} {s : String} :
    text? x st = some s ↔ answer x st = .ok (.text s) := by
  unfold text?
  split <;> simp_all

/-- A page that renders with the data that are given, and the body that it has. -/
theorem body_of_answer {x : Session} (halive : x.alive = true) (hplain : x.env.IsPlain)
    {source : String} {name : Option String} {a : RenderArguments}
    (hpage : (Source.mk source name none).IsPage) {cells : Array Cell} {d : RenderData}
    (hd : d.IsPlain) (hgiven : ∀ w, w.heap = .empty →
      (a.given x.env).run w = .ok 0 { w with heap := ⟨cells, #[], #[d]⟩ }) {text : String}
    (h : answer (x, .fresh) (.renderText source name a) = .ok (.text text)) :
    ∃ t, Template.ofSource ⟨source, name, none⟩ x.env.lenient = .ok t ∧
      ∃ out w, (nodes (pageReach x.env x.env.host.nested 0) (pageScope x.env.lenient 0 0) #[]
        t.tree.nodes).run (worldAround d (pageBoundary x.env t)) = .ok out w ∧ out.text = text := by
  obtain ⟨t, w, w', hcompile, hrender⟩ := answer_text_iff.mp h
  obtain ⟨hsource, notices, rfl⟩ := (x.env.compileSource_settles _).of_ok hcompile
  replace hsource := Environment.ofSource_ok hsource
  refine ⟨t, hsource, ?_⟩
  obtain ⟨ns, tokens, orphans, rfl, -⟩ := Template.ofSource_page_ok hsource (hpage.layout? hsource)
  obtain ⟨out, w₁, hbody, htext⟩ := (page_renders halive rfl hgiven rfl).mp ⟨w', hrender⟩
  obtain ⟨w₂, halone⟩ := pageNodes_alone hplain hd ⟨rfl, Nat.zero_lt_one⟩ rfl rfl hbody
  exact ⟨out, w₂, halone, htext⟩

/-- Whole lines and a page behind them render to what each of them renders to. -/
theorem answer_joined {x : Session × World} (halive : x.1.alive = true) (hplain : x.1.env.IsPlain)
    (hw : x.2.boundary = none) {args : RenderArguments} (hargs : args.isImmutable = true)
    {a b : String} {name : Option String}
    (hhost : x.1.env.host.breakdown? ⟨a ++ b, name, none⟩ = none)
    (hline : Text.EndsLine a.toList) (hpage : (Source.mk a name none).IsPage)
    (hpage' : (Source.mk b name none).IsPage) {s s' : String} (h : answer x (.renderText a name args) = .ok (.text s))
    (h' : answer x (.renderText b name args) = .ok (.text s')) :
    answer x (.renderText (a ++ b) name args) = .ok (.text (s ++ s')) := by
  have hfresh (source : String) : answer x (.renderText source name args) =
      answer (x.1, .fresh) (.renderText source name args) := by
    unfold answer
    rw [step_anywhere hplain rfl rfl hw]
  rw [hfresh] at h h' ⊢
  rcases RenderArguments.given_cases hplain hargs with ⟨cells, d, hd, hgiven⟩ | hnever
  · obtain ⟨ta, hta, out, w₁, hbody, rfl⟩ := body_of_answer halive hplain hpage hd hgiven h
    obtain ⟨tb, htb, out', w₂, hbody', rfl⟩ := body_of_answer halive hplain hpage' hd hgiven h'
    obtain ⟨nodes, hjoins, htab⟩ :=
      Template.ofSource_append hline hta (hpage.layout? hta) htb (hpage'.layout? htb)
    have hwhole : x.1.env.ofSource ⟨a ++ b, name, none⟩ =
        .ok ⟨⟨a ++ b, name, none⟩, .page nodes, x.1.env.lenient⟩ := by
      unfold Environment.ofSource
      rw [hhost]
      exact htab
    obtain ⟨notices, hcompile⟩ := x.1.env.compileSource_settles ⟨a ++ b, name, none⟩ .fresh
    rw [hwhole] at hcompile
    have hname {source : String} {t : Template}
        (ht : Template.ofSource ⟨source, name, none⟩ x.1.env.lenient = .ok t) (text : String) :
        (pageBoundary x.1.env t).Level (.page name none (some text) x.1.env.limit) := by
      obtain ⟨hsource, -⟩ := Template.ofSource_ok ht
      refine ⟨rfl, rfl, ?_⟩
      unfold pageBoundary Template.name
      rw [hsource]
      rfl
    let boundary := Boundary.page name none (some (a ++ b)) x.1.env.limit
    have hplace : HasPlace d 0 0 (bodyWorld cells d boundary notices) := ⟨rfl, Nat.zero_lt_one⟩
    have hshows : Shows boundary [0] (bodyWorld cells d boundary notices) :=
      ⟨0, List.mem_singleton_self 0, rfl⟩
    obtain ⟨joined, w₃, hjoined, htext⟩ := pageNodes_joined (Text.Position.below_injective _) hjoins
      hplain hd (hname hta _) (hname htb _) hbody hbody' hplace hshows
    obtain ⟨w', hrender⟩ := (page_renders (t := ⟨⟨a ++ b, name, none⟩, .page nodes,
      x.1.env.lenient⟩) halive rfl hgiven (w := { World.fresh with notices }) rfl).mpr
        ⟨joined, w₃, hjoined, htext⟩
    exact answer_text_iff.mpr ⟨_, _, w', hcompile, hrender⟩
  · obtain ⟨t, w, w', hcompile, hrender⟩ := answer_text_iff.mp h
    obtain ⟨-, notices, rfl⟩ := (x.1.env.compileSource_settles _).of_ok hcompile
    rw [renderTemplate_eq halive] at hrender
    obtain ⟨r, w₁, hgiven, -⟩ := Action.bind_ok hrender
    exact absurd hgiven (hnever _ rfl r w₁)

end Session

namespace Source

/-- What comes of a source with the tokens `ts` and of texts behind it is settled by each of the
two alone. -/
structure IsLocal (a : String) (name filename : Option String) (ts : List Token) : Prop where
  /-- Both together are cut into tokens if and only if the text behind is. -/
  succeeds : ∀ b, (∃ all, (Source.mk (a ++ b) name filename).tokens = .ok all) ↔
    ∃ us, (Source.mk b name filename).tokens = .ok us
  /-- The tokens of the text behind follow, further down. -/
  tokens : ∀ b us, (Source.mk b name filename).tokens = .ok us →
    (Source.mk (a ++ b) name filename).tokens = .ok
      (Token.joined ts.dropLast (us.map (Token.moved (.below (a.toList.count '\n')))))
  /-- The text behind is refused as it is alone, further down. -/
  refused : ∀ b e, (Source.mk b name filename).tokens = .error e →
    (Source.mk (a ++ b) name filename).tokens = .error
      { e with line := e.line.map (· + a.toList.count '\n'), source := some (a ++ b) }
  /-- A comment between the two changes no token but in its place. -/
  commented : ∀ b c, ¬ Delimiter.commentClosing <:+: c.toList →
    (Source.mk (a ++ "\x7b\x7b--" ++ c ++ "--\x7d\x7d" ++ b) name filename).kinds =
      (Source.mk (a ++ b) name filename).kinds
  /-- Pages render one behind the other to what each of them renders to, whenever a session with
  immutable data has got to, on a host that takes the source of both. -/
  renders : ∀ {setup : Setup}, setup.IsImmutable → ∀ {env : Environment} {w : World},
    (Environment.make setup).run .fresh = .ok env w →
    ∀ steps : List Step, (∀ st ∈ steps, st.isImmutable = true) →
    ∀ (given : RenderArguments) (title : Option String) (b : String), given.isImmutable = true →
    setup.host.breakdown? ⟨a ++ b, title, none⟩ = none →
    (Source.mk a title none).IsPage → (Source.mk b title none).IsPage → ∀ s s' : String,
      Session.answer (steps.foldl Session.proceed (.start env, w)) (.renderText a title given) =
        .ok (.text s) →
      Session.answer (steps.foldl Session.proceed (.start env, w)) (.renderText b title given) =
        .ok (.text s') →
      Session.answer (steps.foldl Session.proceed (.start env, w))
        (.renderText (a ++ b) title given) = .ok (.text (s ++ s'))

/-- A source that ends a line is local: whatever text comes behind it. -/
theorem lines_are_local {a : String} {name filename : Option String} {ts : List Token}
    (hline : Text.EndsLine a.toList) (hts : (Source.mk a name filename).tokens = .ok ts) :
    IsLocal a name filename ts := by
  obtain ⟨found, hfound⟩ := segments_of_tokens hts
  have htokens (b : String) (us : List Token)
      (hus : (Source.mk b name filename).tokens = .ok us) := tokens_append hline hfound hts hus
  have hrefused (b : String) (e : SyntaxError)
      (he : (Source.mk b name filename).tokens = .error e) := tokens_append_error hline hfound he
  refine ⟨fun b => ?_, htokens, hrefused, fun b c hc => kinds_comment hline hfound hc b, ?_⟩
  · cases hb : (Source.mk b name filename).tokens with
    | ok us => exact iff_of_true ⟨_, htokens b us hb⟩ ⟨us, rfl⟩
    | error e =>
      refine iff_of_false ?_ nofun
      rintro ⟨all, hall⟩
      cases (hrefused b e hb).symm.trans hall
  · intro setup himm env w hmake steps hsteps given title b hgiven hhost hpage hpage' s s' h h'
    have hcovers := (Account.covers_start himm hmake).proceed_all hsteps
    have hsame := hcovers.env.host.trans (Account.noted_all_host steps (.start setup))
    exact Session.answer_joined hcovers.alive (hcovers.env.plain hcovers.immutable)
      hcovers.outside hgiven (hsame ▸ hhost) hline hpage hpage' h h'

/-- The tokens of a branch over three lines. -/
def branchTokens : List Token :=
  [⟨.directive (.opening .ifBlock) (some "x"), ⟨1, 0⟩⟩, ⟨.data "\nyes\n", ⟨1, 6⟩⟩,
    ⟨.directive (.closing .ifBlock) none, ⟨3, 0⟩⟩, ⟨.data "\n", ⟨3, 6⟩⟩, ⟨.finish, ⟨4, 0⟩⟩]

/-- An environment with one global, which is true. -/
def branchSetup : Setup where
  loader := none
  globals := [("x", .bool true)]
  limit := none
  lenient := false
  shared := []
  files := .empty
  host := .even

theorem branch_is_local : Text.EndsLine "@if(x)\nyes\n@endif\n".toList ∧
    (Source.mk "@if(x)\nyes\n@endif\n" none none).tokens = .ok branchTokens ∧
    IsLocal "@if(x)\nyes\n@endif\n" none none branchTokens ∧
    ∃ env w, (Environment.make branchSetup).run .fresh = .ok env w ∧
      Session.answer (.start env, w)
        (.renderText "@if(x)\nyes\n@endif\nIt is \x7b\x7b x \x7d\x7d" none ⟨.none, []⟩) =
          .ok (.text "\nyes\n\nIt is True") := by
  have hlines : Text.EndsLine "@if(x)\nyes\n@endif\n".toList := rfl
  have htokens : (Source.mk "@if(x)\nyes\n@endif\n" none none).tokens = .ok branchTokens := by
    decide +kernel
  have hlocal := lines_are_local hlines htokens
  have himm : branchSetup.IsImmutable := by
    refine ⟨fun l hl => ?_, rfl, rfl⟩
    cases hl
  refine ⟨hlines, htokens, hlocal, _, _, rfl, ?_⟩
  exact hlocal.renders himm rfl [] (by simp) ⟨.none, []⟩ none "It is \x7b\x7b x \x7d\x7d" rfl
    rfl (by decide +kernel) (by decide +kernel) "\nyes\n\n" "It is True"
    (Session.text?_eq_some.mp (by decide +kernel)) (Session.text?_eq_some.mp (by decide +kernel))

end Source

end Stencil
