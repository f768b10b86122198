import Stencil.Environment
import Stencil.Proofs.FreeNames
import Stencil.Proofs.SafeRenders

/-!
# What comes from outside

Data from outside are taken into a heap safely, and environments are set up safely. So all that a
program outside makes of an empty heap is sound.
-/

namespace Stencil

variable {l : Licence} {h : Heap} {w : World}

theorem Heap.empty_isSound : Heap.IsSound .empty where
  cells hr := nomatch hr
  values hx := nomatch hx
  data _ := suits_of_isEmpty rfl
  followed hr := nomatch hr
  parents hr := nomatch hr

namespace Datum

mutual

theorem load_safe : ∀ (d : Datum) {h : Heap}, Safe l h d.load
  | .none, _ => .pure suits_noneValue
  | .bool b, _ => .pure (suits_boolValue b)
  | .int n, _ => .pure (suits_intValue n)
  | .float x, _ => .pure (suits_floatValue x)
  | .str s, _ => .pure (suits_strValue s)
  | .bytes b, _ => .pure (suits_bytesValue b)
  | .list items, _ => .bind (loadAll_safe items) fun _ hvs => .newList (suits_toArray.mpr hvs)
  | .tuple items, _ => .bind (loadAll_safe items) fun _ hvs => .pure ((suits_tupleValue _).mpr hvs)
  | .dict entries, _ => by
    unfold load
    refine .bind (loadEntries_safe entries) fun _ hpairs => .get fun _ => .compute fun hput => ?_
    exact .newDict (putEntries_suits suits_nil (suits_toArray.mpr hpairs) hput)
  | .range a b c, _ => .pure (suits_rangeValue a b c)
  | .object fields, _ => by
    unfold load
    refine .bind (loadFields_safe fields) fun _ hfields => ?_
    exact .allocate_bind (c := .object _) (fun hk => nomatch hk) hfields fun _ ho =>
      .pure ((suits_objectValue _).mpr ho)
  | .row fields, _ => by
    unfold load
    refine .bind (loadFields_safe fields) fun {h' bindings} _ hfields => ?_
    dsimp only
    have hentries : Suits h' (Cell.dict (bindings.map fun (k, v) => (Value.str k, v)).toArray) := by
      refine suits_toArray.mpr (suits_list_iff.mpr fun x hx => ?_)
      obtain ⟨⟨k, v⟩, hmem, rfl⟩ := List.mem_map.mp hx
      have hpair := suits_list_iff.mp hfields _ hmem
      exact suits_pair.mpr ⟨suits_strValue _, (suits_pair.mp hpair).2⟩
    exact .allocate_bind (fun hk => nomatch hk) hentries fun _ ho =>
      .pure ((suits_rowValue _).mpr ho)
  | .textual s, _ => by
    unfold load
    exact .allocate_bind (c := .textual s) (fun hk => nomatch hk) (suits_of_isEmpty rfl) fun _ ho =>
      .pure ((suits_textualValue _).mpr ho)
  | .iterator items, _ => by
    unfold load
    refine .bind (loadAll_safe items) fun _ hvs => ?_
    refine .allocate_bind (c := .list _) nofun (suits_toArray.mpr hvs) fun _ ho => ?_
    exact .newIterator (suits_of_refs_singleton rfl |>.mpr ho)
  | .host f, _ => .pure (suits_hostValue f)

theorem loadAll_safe : ∀ (ds : List Datum) {h : Heap}, Safe l h (loadAll ds)
  | [], _ => .pure suits_nil
  | d :: ds, _ => .bind (load_safe d) fun _ hv => .bind (loadAll_safe ds) fun hl hvs =>
    .pure (suits_cons.mpr ⟨hv.after hl, hvs⟩)

theorem loadEntries_safe : ∀ (es : List (Datum × Datum)) {h : Heap}, Safe l h (loadEntries es)
  | [], _ => .pure suits_nil
  | e :: es, _ => .bind (loadEntry_safe e) fun _ hp => .bind (loadEntries_safe es) fun hl hps =>
    .pure (suits_cons.mpr ⟨hp.after hl, hps⟩)

theorem loadEntry_safe : ∀ (e : Datum × Datum) {h : Heap}, Safe l h (loadEntry e)
  | (k, d), _ => .bind (load_safe k) fun _ hk => .bind (load_safe d) fun hl hv =>
    .pure (suits_pair.mpr ⟨hk.after hl, hv⟩)

theorem loadFields_safe : ∀ (fs : List (String × Datum)) {h : Heap}, Safe l h (loadFields fs)
  | [], _ => .pure suits_nil
  | f :: fs, _ => .bind (loadField_safe f) fun _ hb => .bind (loadFields_safe fs) fun hl hbs =>
    .pure (suits_cons.mpr ⟨hb.after hl, hbs⟩)

theorem loadField_safe : ∀ (f : String × Datum) {h : Heap}, Safe l h (loadField f)
  | (name, d), _ => .bind (load_safe d) fun _ hv => .pure (suits_pair.mpr ⟨suits_string name, hv⟩)

end

end Datum

open Stencil.Action (IsSafe)

namespace LoaderSpec

mutual

theorem make_safe : ∀ (s : LoaderSpec) {w : World}, IsSafe l w s.make
  | .files _, _ => .pure (suits_of_isEmpty rfl)
  | .table _, _ => .pure (suits_of_isEmpty rfl)
  | .choice loaders, _ => by
    unfold make
    exact .bind (makeAll_safe loaders) fun _ hls => .pure (suits_choice.mpr hls)
  | .lookup views, _ => by
    unfold make
    exact .bind (.evaluateUnder 0 (Datum.loadFields_safe views)) fun _ hviews => .pure hviews
  | .callback d, _ => by
    unfold make
    refine .bind (.evaluateUnder 0 d.load_safe) fun _ hf => ?_
    split
    · exact .pure hf
    · exact .fault _
  | .shouting, _ => .pure (suits_of_isEmpty rfl)
  | .custom d, _ => by
    unfold make
    exact .bind (.evaluateUnder 0 d.load_safe) fun _ hv => .pure hv

theorem makeAll_safe : ∀ (specs : List LoaderSpec) {w : World}, IsSafe l w (makeAll specs)
  | [], _ => .pure suits_nil
  | s :: specs, _ => .bind (make_safe s) fun _ hfirst => .bind (makeAll_safe specs) fun hl hrest =>
    .pure (suits_cons.mpr ⟨hfirst.after hl, hrest⟩)

end

end LoaderSpec

namespace Environment

theorem suits_iff {env : Environment} :
    Suits h env ↔ Suits h env.loader ∧ Suits h env.globals ∧ Suits h env.shared := by
  unfold Suits
  change (∀ x ∈ refs env.loader ++ (refs env.globals ++ refs env.shared), _) ↔ _
  simp only [List.mem_append, or_imp, forall_and]

theorem builtins_suits (h : Heap) : Suits h builtins := by
  refine suits_list_iff.mpr fun x hx => ?_
  obtain ⟨b, -, rfl⟩ := List.mem_map.mp hx
  exact suits_pair.mpr ⟨suits_string _, suits_builtinValue b⟩

theorem share_safe {env : Environment} {more : Bindings} (henv : Suits w.heap env)
    (hmore : Suits w.heap more) : IsSafe l w (env.share more) := by
  obtain ⟨hloader, hglobals, hshared⟩ := suits_iff.mp henv
  refine .bind (.notice _) fun hl _ => .pure (suits_iff.mpr ?_)
  exact ⟨hloader.after hl, hglobals.after hl,
    Render.suits_update (hshared.after hl) (hmore.after hl)⟩

theorem limitOf_safe (d : Option Datum) : IsSafe l w (limitOf d) := by
  unfold limitOf
  split
  · exact .pure (suits_int _)
  · split
    · exact .pure (suits_int _)
    · exact .fault _
  · refine .bind (.evaluateUnder 0 (Datum.load_safe _)) fun _ _ => ?_
    exact .get (.bind (.ofExcept fun _ => suits_string _) fun _ _ => .fault _)

/-- An environment is at home in the heap in which it was set up. -/
theorem make_safe (s : Setup) : IsSafe l w (make s) := by
  unfold make
  extract_lets finish
  have hfinish {w : World} {loader : Option Loader} (hloader : Suits w.heap loader) :
      IsSafe l w (finish loader) := by
    refine .bind (.evaluateUnder 0 (Datum.loadFields_safe _)) fun {w₁ globals} hl₁ hglobals => ?_
    extract_lets limited
    have hlimited {w₂ : World} (hl₂ : l.Leads w₁.heap w₂.heap) : IsSafe l w₂ (limited ()) := by
      refine .bind (limitOf_safe _) fun {w₃ limit} hl₃ _ => ?_
      have hled := (hl₁.trans hl₂).trans hl₃
      have henv : Suits w₃.heap
          (⟨loader, builtins.update globals, [], limit, s.lenient, s.files, s.host⟩ : Environment) :=
        suits_iff.mpr ⟨hloader.after hled, Render.suits_update (builtins_suits _)
          (hglobals.after (hl₂.trans hl₃)), suits_nil⟩
      dsimp only
      split
      · exact .pure henv
      · exact .bind (.evaluateUnder 0 (Datum.loadFields_safe _)) fun hl₄ hmore =>
          share_safe (henv.after hl₄) hmore
    split
    · refine .get ?_
      split
      · exact .bind (.fault _) fun hl₂ _ => hlimited hl₂
      · exact hlimited (.refl _ _)
    · exact hlimited (.refl _ _)
  split
  · exact hfinish suits_none
  · exact hfinish suits_none
  · refine .bind (.bind (LoaderSpec.make_safe _) fun _ hloader => ?_) fun _ hloader =>
      hfinish hloader
    exact .pure (suits_some.mpr hloader)

theorem bare_suits (h : Heap) : Suits h bare :=
  suits_iff.mpr ⟨suits_none, suits_nil, suits_nil⟩

end Environment

end Stencil
