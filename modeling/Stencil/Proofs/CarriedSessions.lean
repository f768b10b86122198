import Stencil.Environment
import Stencil.Proofs.CarriedRenders

/-!
# Sessions in renamed heaps

A step of a session with renamed values, in a heap that carries all the first one has, leads to
the same session and the same reply, renamed. In particular it does not matter what a heap has
beyond the values a session knows of.
-/

namespace Stencil

namespace Renaming

variable {ρ : Renaming} {frames : Array Frame}

mutual

theorem load_carried : ∀ d : Datum, ρ.Carried ρ.value d.load d.load
  | .none | .bool _ | .int _ | .float _ | .str _ | .bytes _ | .range _ _ _ | .host _ => .pure
  | .list items => .bind (loadAll_carried items) fun vs => .newListOf vs
  | .tuple items => .bind (loadAll_carried items) fun vs => .deliver (ρ.value_tuple vs).symm
  | .dict entries => by
    unfold Datum.load
    refine .bind (loadEntries_carried entries) fun pairs => .get fun h h' hc => ?_
    have hput := hc.putEntries_value #[] pairs.toArray
    rw [Array.map_empty, List.map_toArray] at hput
    exact .bind (.ofExcept hput) fun entries => .newDict entries
  | .object fields => .bind (loadFields_carried fields) fun b => .bind (.allocate (.object b))
      fun _ => .pure
  | .row fields => by
    unfold Datum.load
    refine .bind (loadFields_carried fields) fun b => ?_
    have hentries : (ρ.bindings b).map (fun (k, v) => (Value.str k, v)) =
        (b.map fun (k, v) => (Value.str k, v)).map ρ.entry := by
      unfold bindings
      rw [List.map_map, List.map_map]
      rfl
    have hcell := Carried.allocate (ρ := ρ) (.dict (b.map fun (k, v) => (Value.str k, v)).toArray)
    rw [heapCell, List.map_toArray, ← hentries] at hcell
    exact .bind hcell fun _ => .pure
  | .textual s => .bind (.allocate (.textual s)) fun _ => .pure
  | .iterator items => by
    unfold Datum.load
    refine .bind (loadAll_carried items) fun vs => ?_
    rw [← List.map_toArray]
    exact .bind (.allocate (.list vs.toArray)) fun r => .newIterator .list (.list r 0)

theorem loadAll_carried : ∀ ds : List Datum,
    ρ.Carried (List.map ρ.value) (Datum.loadAll ds) (Datum.loadAll ds)
  | [] => .pure
  | d :: ds => .bind (load_carried d) fun _ => .bind (loadAll_carried ds) fun _ => .pure

theorem loadEntries_carried : ∀ es : List (Datum × Datum),
    ρ.Carried (List.map ρ.entry) (Datum.loadEntries es) (Datum.loadEntries es)
  | [] => .pure
  | e :: es => .bind (loadEntry_carried e) fun _ => .bind (loadEntries_carried es) fun _ => .pure

theorem loadEntry_carried : ∀ e : Datum × Datum,
    ρ.Carried ρ.entry (Datum.loadEntry e) (Datum.loadEntry e)
  | (k, d) => .bind (load_carried k) fun _ => .bind (load_carried d) fun _ => .pure

theorem loadFields_carried : ∀ fs : List (String × Datum),
    ρ.Carried ρ.bindings (Datum.loadFields fs) (Datum.loadFields fs)
  | [] => .pure
  | f :: fs => .bind (loadField_carried f) fun _ => .bind (loadFields_carried fs) fun _ => .pure

theorem loadField_carried : ∀ f : String × Datum,
    ρ.Carried ρ.binding (Datum.loadField f) (Datum.loadField f)
  | (_, d) => .bind (load_carried d) fun _ => .pure

end

mutual

theorem names?_loader (tree : FileTree) : ∀ l : Loader, (ρ.loader l).names? tree = l.names? tree
  | .choice ls => by rw [loader, Loader.names?, Loader.names?, namesOfAll_loaders tree ls]
  | .files _ | .table _ | .lookup _ | .callback _ | .shouting | .custom _ => rfl

theorem namesOfAll_loaders (tree : FileTree) : ∀ ls : List Loader,
    Loader.namesOfAll tree (ρ.loaders ls) = Loader.namesOfAll tree ls
  | [] => rfl
  | l :: ls => by
    rw [loaders, Loader.namesOfAll, Loader.namesOfAll, names?_loader tree l,
      namesOfAll_loaders tree ls]

end

theorem putTemplate_loader (name source : String) (l : Loader) :
    (ρ.loader l).putTemplate name source = ρ.loader (l.putTemplate name source) := by
  cases l <;> rfl

theorem loaderTitle_value (o : Option Loader) :
    (o.map ρ.loader).map Loader.title = o.map Loader.title := by
  cases o with
  | none => rfl
  | some l => exact congrArg some (title_loader l)

theorem sharedEntries_value (env : Environment) :
    (ρ.environment env).sharedEntries = ρ.bindings env.sharedEntries := by
  have hsorted := List.map_mergeSort (f := ρ.binding) (l := env.shared)
    (r := fun a b => decide (a.1 ≤ b.1)) (s := fun a b => decide (a.1 ≤ b.1)) fun _ _ _ _ => rfl
  exact hsorted.symm

theorem globalNames_value (env : Environment) :
    (ρ.environment env).globalNames = env.globalNames := by
  unfold Environment.globalNames environment
  rw [bindings_keys]

theorem ownGlobalNames_value (env : Environment) :
    (ρ.environment env).ownGlobalNames = env.ownGlobalNames := by
  unfold Environment.ownGlobalNames
  rw [globalNames_value]

theorem text_environment (env : Environment) : (ρ.environment env).text = env.text := by
  unfold Environment.text environment
  rw [loaderTitle_value]

theorem templateNames_value (env : Environment) :
    (ρ.environment env).templateNames = env.templateNames := by
  unfold Environment.templateNames environment
  dsimp only
  cases env.loader with
  | none => rfl
  | some l =>
    dsimp only [Option.map_some]
    rw [names?_loader]

theorem share_follows (env : Environment) (more : Bindings) :
    ρ.Follows ρ.environment frames (env.share more) ((ρ.environment env).share (ρ.bindings more)) := by
  unfold Environment.share
  rw [bindings_keys]
  refine .bind (.notice _) fun _ _ _ => .deliver ?_
  unfold environment
  dsimp only
  rw [bindings_update]

theorem addGlobals_value (env : Environment) (more : Bindings) :
    (ρ.environment env).addGlobals (ρ.bindings more) = ρ.environment (env.addGlobals more) := by
  unfold Environment.addGlobals environment
  dsimp only
  rw [bindings_update]

variable (ρ) in
def session (s : Session) : Session := { s with env := ρ.environment s.env }

variable (ρ) in
def reply : Reply → Reply
  | .entries b => .entries (ρ.bindings b)
  | .source l => .source (ρ.loaded l)
  | r => r

variable (ρ) in
def sessionReply (r : Session × Reply) : Session × Reply := (ρ.session r.1, ρ.reply r.2)

variable (ρ) in
theorem namedEntries_value (entries : Array (Value × Value)) :
    Session.namedEntries (entries.map ρ.entry) = ρ.bindings (Session.namedEntries entries) := by
  unfold Session.namedEntries bindings
  rw [Array.toList_map, List.filterMap_map, List.map_filterMap]
  congr 1
  funext e
  obtain ⟨k, v⟩ := e
  cases k <;> rfl

theorem slot_follows (s : Session) (name : String) :
    ρ.Follows id frames (s.slot name) ((ρ.session s).slot name) := by
  unfold Session.slot session
  dsimp only
  cases s.slots.lookup name with
  | none => exact .halted _
  | some t => exact .pure t

theorem renderTemplate_follows (s : Session) (t : Template) (a : RenderArguments) :
    ρ.Follows ρ.reply frames (s.renderTemplate t a) ((ρ.session s).renderTemplate t a) := by
  unfold Session.renderTemplate session
  cases s.alive with
  | false => exact .stopped _
  | true =>
    refine .bind (.evaluateUnder 0 (load_carried a.data)) fun _ data _ => ?_
    refine .bind (.evaluateUnder 0 (loadFields_carried a.more)) fun _ more _ => ?_
    exact .bind (renderBy_follows ρ.standard_evaluates t s.env data more) fun _ _ _ => .deliver rfl

theorem renderNamed_follows (s : Session) (name : String) (a : RenderArguments) :
    ρ.Follows ρ.reply frames (s.renderNamed name a) ((ρ.session s).renderNamed name a) := by
  unfold Session.renderNamed session
  cases s.alive with
  | false => exact .bind (loadUnder_follows s.env 0 name) fun _ t _ => .stopped _
  | true =>
    refine .bind (.evaluateUnder 0 (load_carried a.data)) fun _ data _ => ?_
    refine .bind (.evaluateUnder 0 (loadFields_carried a.more)) fun _ more _ => ?_
    refine .bind (f := id) ?_ fun _ _ _ => .deliver rfl
    refine .bind (loadUnder_follows s.env 0 name) fun _ t _ => ?_
    exact renderBy_follows ρ.standard_evaluates t s.env data more

theorem step_follows (s : Session) (st : Step) :
    ρ.Follows ρ.sessionReply frames (s.step st) ((ρ.session s).step st) := by
  cases st with
  | share entries =>
    refine .bind (.evaluateUnder 0 (loadFields_carried entries)) fun _ more _ => ?_
    refine .bind (share_follows s.env more) fun _ env _ => .deliver ?_
    rw [sharedEntries_value]
    rfl
  | shareUnder key =>
    have hwrong {frames : Array Frame} (v : Value) : ρ.Follows ρ.sessionReply frames
        (Action.fault (Session.wrongKey v)) (Action.fault (Session.wrongKey (ρ.value v))) := by
      unfold Session.wrongKey
      rw [ρ.kindName_value]
      exact .halted _
    refine .bind (.evaluateUnder 0 (load_carried key)) fun _ v _ => ?_
    cases v with
    | dict r =>
      refine .world fun w w' hw => ?_
      rw [hw.heap.dictEntries, namedEntries_value]
      exact .bind (share_follows s.env _) fun _ env _ => .deliver rfl
    | str name => exact .bind (share_follows s.env [(name, .none)]) fun _ env _ => .deliver rfl
    | _ => exact hwrong _
  | sharedData =>
    refine .deliver ?_
    rw [session, sharedEntries_value]
    rfl
  | addGlobals entries =>
    refine .bind (.evaluateUnder 0 (loadFields_carried entries)) fun _ more _ => .deliver ?_
    rw [session, addGlobals_value, ownGlobalNames_value]
    rfl
  | globalNames =>
    refine .deliver ?_
    rw [session, globalNames_value]
    rfl
  | assign => exact .halted _
  | compile slot source name =>
    exact .bind (compileSource_follows s.env ⟨source, name, none⟩) fun _ t _ => .deliver rfl
  | load slot name =>
    exact .bind (loadUnder_follows s.env 0 name) fun _ t _ => .deliver rfl
  | run slot a =>
    refine .bind (slot_follows s slot) fun _ t _ => ?_
    exact .bind (renderTemplate_follows s t a) fun _ r _ => .deliver rfl
  | renderNamed name a => exact .bind (renderNamed_follows s name a) fun _ r _ => .deliver rfl
  | renderText source name a =>
    refine .bind (compileSource_follows s.env ⟨source, name, none⟩) fun _ t _ => ?_
    exact .bind (renderTemplate_follows s t a) fun _ r _ => .deliver rfl
  | getSource name =>
    unfold Session.step session environment
    dsimp only
    cases hl : s.env.loader with
    | none => exact .halted _
    | some l =>
      refine .bind (find_follows ρ.standard_evaluates 0 _ name l) fun _ found _ => .deliver ?_
      rw [sessionReply, session, environment, hl]
      rfl
  | templateNames =>
    refine .deliver ?_
    rw [session, templateNames_value]
    rfl
  | loaderNames =>
    have hnames : ((ρ.session s).env.loader.bind fun l => l.names? (ρ.session s).env.files) =
        s.env.loader.bind fun l => l.names? s.env.files := by
      unfold session environment
      dsimp only
      cases s.env.loader with
      | none => rfl
      | some l => exact names?_loader _ l
    unfold Session.step
    dsimp only
    rw [hnames]
    split
    · exact .deliver rfl
    · rw [Session.loaderKind, Session.loaderKind, session, environment]
      dsimp only
      rw [loaderTitle_value]
      exact .halted _
  | loaderRoots =>
    unfold Session.step Session.loaderKind session environment
    dsimp only
    rw [loaderTitle_value]
    cases hl : s.env.loader with
    | none => exact .halted _
    | some l =>
      cases l with
      | files l =>
        refine .deliver ?_
        rw [sessionReply, session, environment, hl]
        rfl
      | _ => exact .halted _
  | putTemplate name source =>
    refine .deliver ?_
    unfold sessionReply session environment
    dsimp only
    rw [Option.map_map, Option.map_map]
    have hput : Loader.putTemplate name source ∘ ρ.loader =
        ρ.loader ∘ Loader.putTemplate name source :=
      funext fun l => putTemplate_loader name source l
    rw [hput]
    rfl
  | putFile path content => exact .deliver rfl
  | environmentText =>
    refine .deliver ?_
    rw [session, text_environment]
    rfl
  | sectionText slot name => exact .bind (slot_follows s slot) fun _ t _ => .deliver rfl
  | setLenient lenient => exact .deliver rfl
  | isOutside =>
    refine .world fun w w' hw => .deliver ?_
    have hb := hw.boundary
    generalize w.boundary = b, w'.boundary = b' at hb ⊢
    cases hb <;> rfl
  | dropEnvironment => exact .deliver rfl

/-- Where things made in an empty heap are when they are made in a heap that has others. -/
def behind (h : Heap) : Renaming where
  cell r := h.cells.size + r
  frame r := h.frames.size + r
  data r := h.data.size + r
  place _ := id
  exact := True
  cell_lt hlt := Nat.add_lt_add_left hlt _
  frame_injective _ _ heq := Nat.add_left_cancel heq
  place_injective _ := Function.injective_id
  place_exact := places_left

theorem aligned_behind {α : Type} (rename : α → α) (xs : Array α) :
    Aligned (xs.size + ·) rename #[] xs where
  held r := by
    rw [Array.getElem?_eq_none (Nat.le_add_right _ _), Array.getElem?_empty, Option.map_none]
  next i := by rw [Array.size_empty, Nat.zero_add]

theorem carries_behind (h : Heap) : (behind h).Carries .empty h where
  cells := aligned_behind _ h.cells
  data := aligned_behind _ h.data
  assigned r x v hx := by
    rw [Heap.empty, Array.getD_eq_getD_getElem?, Array.getElem?_empty] at hx
    cases hx
  unassigned _ r x _ := by
    have hnone : h.frames[(behind h).frame r]? = none :=
      Array.getElem?_eq_none (Nat.le_add_right _ _)
    rw [Array.getD_eq_getD_getElem?, hnone]
    rfl
  framed r hr := absurd hr (Nat.not_lt_zero r)
  nextFrame i := by
    rw [Heap.empty, Array.size_empty, Nat.zero_add]
    rfl
  nextPlace _ := rfl
  spared _ _ := nofun

theorem worlds_behind {w : World} (hw : w.boundary = none) :
    (behind w.heap).Worlds .fresh w :=
  ⟨carries_behind w.heap, hw ▸ .none⟩

end Renaming

end Stencil
