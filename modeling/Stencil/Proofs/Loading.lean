import Stencil.Render

/-!
# Loading

A template that was loaded is known by the name it was asked for and is what its source reads
as. Loaders that answer from tables, files or fixed views hold their content: asked again, in
whatever state of a render, they answer the same and leave nothing behind but notices.
-/

namespace Stencil

variable {α β : Type}

namespace Action

theorem bind_ok {x : Action α} {f : α → Action β} {w w₂ : World} {b : β}
    (h : (x >>= f).run w = .ok b w₂) :
    ∃ a w₁, x.run w = .ok a w₁ ∧ (f a).run w₁ = .ok b w₂ := by
  rw [EStateM.run_bind] at h
  cases hx : x.run w with
  | ok a w₁ =>
    rw [hx] at h
    exact ⟨a, w₁, rfl, h⟩
  | error s w₁ =>
    rw [hx] at h
    cases h

/-- The value an action ends with. -/
def value? (x : Action α) (w : World) : Option α :=
  match x.run w with
  | .ok a _ => some a
  | .error _ _ => none

/-- The reason for which an action ends early. -/
def stop? (x : Action α) (w : World) : Option Stop :=
  match x.run w with
  | .ok _ _ => none
  | .error s _ => some s

theorem run_of_value? {x : Action α} {w : World} {a : α} (h : x.value? w = some a) :
    ∃ w₁, x.run w = .ok a w₁ := by
  unfold value? at h
  split at h
  · rename_i w₁ hrun
    cases h
    exact ⟨w₁, hrun⟩
  · cases h

def result? (x : Action α) (w : World) : Option (α × World) :=
  match x.run w with
  | .ok a w₁ => some (a, w₁)
  | .error _ _ => none

theorem run_of_result? {x : Action α} {w w₁ : World} {a : α} (h : x.result? w = some (a, w₁)) :
    x.run w = .ok a w₁ := by
  unfold result? at h
  split at h
  · cases h
    assumption
  · cases h

/-- In every world the action ends with the result `r` and leaves nothing but notices. -/
def Settles (x : Action α) (r : Except Failure α) : Prop :=
  ∀ w : World, ∃ notices, x.run w = (Loader.ofFailure r).run { w with notices }

namespace Settles

theorem ofFailure (r : Except Failure α) : Settles (Loader.ofFailure r) r :=
  fun w => ⟨w.notices, rfl⟩

theorem notice (n : Notice) : Settles (Action.notice n) (.ok ()) := fun _ => ⟨_, rfl⟩

theorem bind {x : Action α} {r : Except Failure α} {f : α → Action β} {g : α → Except Failure β}
    (hx : Settles x r) (hf : ∀ a, r = .ok a → Settles (f a) (g a)) :
    Settles (x >>= f) (r >>= g) := by
  intro w
  obtain ⟨notices, hw⟩ := hx w
  rw [EStateM.run_bind, hw]
  cases r with
  | error e => exact ⟨notices, rfl⟩
  | ok a => exact hf a rfl _

theorem forM {f : β → Action PUnit} (hf : ∀ b, Settles (f b) (.ok ())) (l : List β) :
    Settles (l.forM f) (.ok ()) := by
  induction l with
  | nil => exact ofFailure (.ok ())
  | cons b l ih => exact bind (g := fun _ => .ok ()) (hf b) fun _ _ => ih

theorem tryCatch_ok {x : Action α} {a : α} (hx : Settles x (.ok a)) (f : Stop → Action α) :
    Settles (tryCatch x f) (.ok a) := by
  intro w
  obtain ⟨notices, hw⟩ := hx w
  have hw : x w = .ok a { w with notices } := hw
  refine ⟨notices, ?_⟩
  change EStateM.tryCatch x f w = _
  unfold EStateM.tryCatch
  rw [hw]
  rfl

theorem tryCatch_error {x : Action α} {e : Failure} {f : Stop → Action α} {r : Except Failure α}
    (hx : Settles x (.error e)) (hf : Settles (f (.failed e)) r) : Settles (tryCatch x f) r := by
  intro w
  obtain ⟨notices, hw⟩ := hx w
  have hw : x w = .error (.failed e) { w with notices } := hw
  change ∃ notices, EStateM.tryCatch x f w = _
  unfold EStateM.tryCatch
  rw [hw]
  exact hf { w with notices }

theorem of_ok {x : Action α} {r : Except Failure α} {a : α} {w w₁ : World} (hx : Settles x r)
    (h : x.run w = .ok a w₁) : r = .ok a ∧ ∃ notices, w₁ = { w with notices } := by
  obtain ⟨notices, hw⟩ := hx w
  rw [hw] at h
  cases r with
  | error e => cases h
  | ok a' =>
    cases h
    exact ⟨rfl, notices, rfl⟩

end Settles

end Action

namespace Fault

variable {α β : Type}

def Telling (x : Except Fault α) : Prop := ∀ f, x = .error f → f.inWriting? = none

theorem telling_ok (a : α) : Telling (.ok a) := nofun

theorem telling_error {f : Fault} (h : f.inWriting? = none) :
    Telling (.error f : Except Fault α) := by
  rintro _ ⟨⟩
  exact h

theorem telling_bind {x : Except Fault α} {g : α → Except Fault β} (hx : Telling x)
    (hg : ∀ a, Telling (g a)) : Telling (x >>= g) := by
  intro f hf
  cases x with
  | error e =>
    cases hf
    exact hx _ rfl
  | ok a => exact hg a f hf

end Fault

open Fault (Telling telling_ok telling_error telling_bind)

namespace Decoding

theorem damaged_told (codec : String) (place first count : Nat) (reason : String) :
    (damaged codec place first count reason).inWriting? = none := by
  unfold damaged
  split
  · rfl
  · rfl

theorem readFrom_telling (step : Nat → List Nat → Step) (codec handling : String) (fuel : Nat) :
    ∀ (place : Nat) (bytes : List Nat), Telling (readFrom step codec handling place fuel bytes) := by
  induction fuel with
  | zero => exact fun _ _ => telling_ok []
  | succ fuel ih =>
    intro place bytes
    cases bytes with
    | nil => exact telling_ok []
    | cons b rest =>
      unfold readFrom
      split
      · exact telling_bind (ih _ _) fun _ => telling_ok _
      · cases Handling.ofName? handling with
        | none => exact telling_error rfl
        | some h =>
          cases h with
          | strict => exact telling_error (damaged_told ..)
          | leaveOut | replace =>
            exact telling_bind (telling_ok _) fun _ => telling_bind (ih _ _) fun _ => telling_ok _

theorem decode_telling (e : Encoding) (handling : String) (bytes : List Nat) :
    Telling (decode e handling bytes) := by
  have hread (step : Nat → List Nat → Step) (codec : String) (place : Nat) (bytes : List Nat) :
      Telling (read step codec handling place bytes) := readFrom_telling step codec handling _ _ _
  unfold decode
  cases e with
  | utf8 => exact hread _ _ _ _
  | utf8Marked => exact hread _ _ _ _
  | utf16 bigEnd =>
    cases bigEnd with
    | some bigEnd => exact hread _ _ _ _
    | none =>
      dsimp only
      split
      · exact hread _ _ _ _
      · split
        · exact hread _ _ _ _
        · exact hread _ _ _ _
  | ascii => exact hread _ _ _ _
  | latin1 => exact telling_ok _
  | windows1252 => exact hread _ _ _ _

theorem text_telling (encoding handling : String) (bytes : List UInt8) :
    Telling (text encoding handling bytes) := by
  unfold text
  split
  · exact decode_telling _ handling _
  · exact telling_error rfl

end Decoding

/-- Why a name may be refused: nothing is known by it, its source is malformed, or looking for
the source or checking it meets a fault. -/
inductive Refusal (name : String) : Failure → Prop
  | missing (message : String) : Refusal name (.template (.notFound message (some name)))
  | malformed {e : SyntaxError} (h : e.name = some name) : Refusal name (.template (.malformed e))
  | fault {f : Fault} (h : f.inWriting? = none) : Refusal name (.fault f)

/-- The tokens of a source that is read and what reading them comes to. -/
theorem Source.tree_reading {s : Source} {tree : Tree} {warnings : List String}
    (htree : s.tree = .ok (tree, warnings)) :
    ∃ tokens r orphans, s.tokens = .ok tokens ∧
      tokens.foldlM Tree.Reading.step Tree.Reading.empty = .ok r ∧
      Tree.assemble r.layout r.items.reverse = .ok (tree, orphans) := by
  unfold Source.tree at htree
  cases htokens : s.tokens with
  | error e =>
    rw [htokens] at htree
    cases htree
  | ok tokens =>
    rw [htokens] at htree
    simp only [Tree.ofTokens] at htree
    cases hrun : tokens.foldlM Tree.Reading.step Tree.Reading.empty with
    | error e =>
      rw [hrun] at htree
      cases htree
    | ok r =>
      rw [hrun] at htree
      simp only [bind, Except.bind] at htree
      cases hassemble : Tree.assemble r.layout r.items.reverse with
      | error e =>
        rw [hassemble] at htree
        cases htree
      | ok read =>
        rw [hassemble] at htree
        simp only [Except.ok.injEq, Prod.mk.injEq] at htree
        exact ⟨tokens, r, read.2, rfl, hrun, by rw [hassemble, ← htree.1]⟩

namespace Template

/-- The tree of the template is what its source reads as. -/
def IsRead (t : Template) : Prop := ∃ warnings, t.source.tree = .ok (t.tree, warnings)

theorem IsRead.reading {t : Template} (h : t.IsRead) :
    ∃ tokens r orphans, t.source.tokens = .ok tokens ∧
      tokens.foldlM Tree.Reading.step Tree.Reading.empty = .ok r ∧
      Tree.assemble r.layout r.items.reverse = .ok (t.tree, orphans) := by
  obtain ⟨warnings, htree⟩ := h
  exact Source.tree_reading htree

def ofSource (s : Source) (lenient : Bool) : Except Failure Template := do
  let (tree, _) ← s.tree
  match checkFault? s tree with
  | some f => .error (.fault f)
  | none => .ok ⟨s, tree, lenient⟩

theorem compile_settles (s : Source) (lenient : Bool) :
    (compile s lenient).Settles (ofSource s lenient) := by
  unfold compile ofSource
  cases s.tree with
  | error f => exact Action.Settles.ofFailure (.error f)
  | ok read =>
    have hwarn := Action.Settles.forM (fun w => .notice (.warning w)) read.2
    refine hwarn.bind (g := fun _ => _) fun _ _ => ?_
    cases checkFault? s read.1 with
    | some f => exact .ofFailure (.error _)
    | none => exact (Action.Settles.notice _).bind (g := fun _ => _) fun _ _ => .ofFailure (.ok _)

theorem ofSource_ok {s : Source} {lenient : Bool} {t : Template}
    (h : ofSource s lenient = .ok t) : t.source = s ∧ t.IsRead := by
  unfold ofSource at h
  cases hs : s.tree with
  | error f =>
    rw [hs] at h
    cases h
  | ok read =>
    rw [hs] at h
    simp only [bind, Except.bind] at h
    split at h
    · cases h
    · cases h
      exact ⟨rfl, read.2, hs⟩

theorem tree_refusal {s : Source} {name : String} (hs : s.name = some name) {f : Failure}
    (h : s.tree = .error f) : Refusal name f := by
  unfold Source.tree at h
  cases htokens : s.tokens with
  | error e =>
    rw [htokens] at h
    cases h
    unfold Source.tokens at htokens
    split at htokens
    · cases htokens
    · cases htokens
      exact .malformed hs
  | ok tokens =>
    rw [htokens] at h
    simp only at h
    cases hread : Tree.ofTokens tokens with
    | error r =>
      rw [hread] at h
      cases h
      cases r with
      | problem problem position => exact .malformed hs
      | notACall => exact .fault rfl
    | ok read =>
      rw [hread] at h
      cases h

theorem checkFault?_told {s : Source} {tree : Tree} {f : Fault} (h : checkFault? s tree = some f) :
    f.inWriting? = none := by
  unfold checkFault? at h
  split at h
  · cases h
    rfl
  · obtain ⟨problem, -, rfl⟩ := Option.map_eq_some_iff.mp h
    rfl

theorem ofSource_refusal {s : Source} {name : String} (hs : s.name = some name) {lenient : Bool}
    {f : Failure} (h : ofSource s lenient = .error f) : Refusal name f := by
  unfold ofSource at h
  cases htree : s.tree with
  | error f' =>
    rw [htree] at h
    cases h
    exact tree_refusal hs htree
  | ok read =>
    rw [htree] at h
    simp only [bind, Except.bind] at h
    split at h
    · rename_i hfault
      cases h
      exact .fault (checkFault?_told hfault)
    · cases h

end Template

namespace Loaded

def HasPlainName (l : Loaded) : Prop := (∃ s, l.filename = .str s) ∨ l.filename = .none

end Loaded

namespace Loader

/-- Loaders whose answers depend on nothing but the name. -/
inductive IsFixed : Loader → Prop
  | files (l : FileLoader) : IsFixed (.files l)
  | table (templates : List (String × String)) : IsFixed (.table templates)
  | choice (loaders : List Loader) (h : ∀ l ∈ loaders, IsFixed l) : IsFixed (.choice loaders)
  | lookup (views : Bindings)
      (h : ∀ name l, ofAnswer name ((views.get? name).getD .none) = .ok l → l.HasPlainName) :
      IsFixed (.lookup views)
  | shouting : IsFixed .shouting

def Proper (name : String) : Except Failure Loaded → Prop
  | .ok l => l.HasPlainName
  | .error f => Refusal name f

theorem under_plain (l : FileLoader) (tree : FileTree) (root : String) (path : List String)
    {found : Loaded} (h : l.under tree root path = .ok (some found)) : found.HasPlainName := by
  unfold FileLoader.under at h
  simp only [bind, Except.bind, pure, Except.pure] at h
  repeat' split at h
  all_goals cases h
  exact .inl ⟨_, rfl⟩

theorem findUnder_plain (l : FileLoader) (tree : FileTree) (path : List String)
    {found : Loaded} : ∀ roots : List String,
      l.findUnder tree path roots = .ok (some found) → found.HasPlainName
  | [], h => nomatch h
  | root :: roots, h => by
    unfold FileLoader.findUnder at h
    cases hu : l.under tree root path with
    | error f =>
      rw [hu] at h
      cases h
    | ok found? =>
      rw [hu] at h
      cases found? with
      | none => exact findUnder_plain l tree path roots h
      | some found' =>
        cases h
        exact under_plain l tree root path hu

theorem resolved_telling (tree : FileTree) (path : List String) :
    Telling (FileLoader.resolved tree path) := by
  unfold FileLoader.resolved FileTree.checkNames
  refine telling_bind ?_ fun _ => ?_
  · split
    · exact telling_error rfl
    · exact telling_ok ()
  · split
    · exact telling_ok _
    · exact telling_error rfl

theorem under_telling (l : FileLoader) (tree : FileTree) (root : String) (path : List String) :
    Telling (l.under tree root path) := by
  unfold FileLoader.under FileTree.checkLengths
  refine telling_bind (resolved_telling tree _) fun base => ?_
  refine telling_bind (resolved_telling tree _) fun full => ?_
  split
  · exact telling_ok none
  · refine telling_bind ?_ fun _ => ?_
    · split
      · split
        · exact telling_error rfl
        · exact telling_ok ()
      · exact telling_ok ()
    · split
      · exact telling_bind (telling_bind (Decoding.text_telling _ _ _) fun _ => telling_ok _)
          fun _ => telling_ok _
      · exact telling_ok none

theorem findUnder_telling (l : FileLoader) (tree : FileTree) (path : List String) :
    ∀ roots : List String, Telling (l.findUnder tree path roots)
  | [] => telling_ok none
  | root :: roots => by
    unfold FileLoader.findUnder
    refine telling_bind (under_telling l tree root path) fun found => ?_
    cases found with
    | some found => exact telling_ok _
    | none => exact findUnder_telling l tree path roots

theorem files_proper (l : FileLoader) (tree : FileTree) (name : String) :
    Proper name (l.find tree name) := by
  unfold FileLoader.find
  cases l.relativePath? name with
  | none => exact .missing _
  | some path =>
    simp only
    cases hfound : l.findUnder tree path l.roots with
    | error f => exact .fault (findUnder_telling l tree path l.roots f hfound)
    | ok found =>
      cases found with
      | none => exact .missing _
      | some found => exact findUnder_plain l tree path _ hfound

theorem ofAnswer_refusal {name : String} {v : Value} {f : Failure}
    (h : ofAnswer name v = .error f) : Refusal name f := by
  unfold ofAnswer at h
  split at h
  · cases h
    exact .missing _
  · cases h
  · cases h
  · cases h
    exact .fault rfl

theorem findFirst_settles (ev : Evaluator) (tree : FileTree) (name : String) (count : Nat)
    {ls : List Loader}
    (hls : ∀ l ∈ ls, ∃ r, Proper name r ∧ ∀ calls, (l.find ev calls tree name).Settles r)
    (misses : List String) :
    ∃ r, Proper name r ∧
      ∀ calls, (findFirst ev calls tree name count misses ls).Settles r := by
  induction ls generalizing misses with
  | nil =>
    unfold findFirst
    exact ⟨.error _, .missing _, fun _ => .ofFailure (.error _)⟩
  | cons l ls ih =>
    obtain ⟨r, hproper, hr⟩ := hls l List.mem_cons_self
    have ih := ih fun l' hl' => hls l' (List.mem_cons_of_mem l hl')
    unfold findFirst
    cases r with
    | ok found => exact ⟨.ok found, hproper, fun calls => .tryCatch_ok (hr calls) _⟩
    | error e =>
      cases hproper with
      | missing m =>
        obtain ⟨r', hproper', hr'⟩ :=
          ih (misses ++ [l.title ++ ": " ++ firstLineOf (.notFound m (some name))])
        exact ⟨r', hproper', fun calls => .tryCatch_error (hr calls) (hr' calls)⟩
      | malformed he =>
        exact ⟨.error _, .malformed he, fun calls =>
          .tryCatch_error (hr calls) (.ofFailure (.error _))⟩
      | fault hf =>
        exact ⟨.error _, .fault hf, fun calls =>
          .tryCatch_error (hr calls) (.ofFailure (.error _))⟩

theorem find_settles (ev : Evaluator) (tree : FileTree) (name : String) {l : Loader}
    (hl : l.IsFixed) :
    ∃ r, Proper name r ∧ ∀ calls, (l.find ev calls tree name).Settles r := by
  induction hl with
  | files l =>
    unfold find
    exact ⟨l.find tree name, files_proper l tree name, fun _ => .ofFailure _⟩
  | table templates =>
    unfold find
    cases templates.lookup name with
    | none => exact ⟨.error _, .missing _, fun _ => .ofFailure (.error _)⟩
    | some source => exact ⟨.ok ⟨source, .none⟩, .inr rfl, fun _ => .ofFailure (.ok _)⟩
  | choice loaders h ih =>
    unfold find
    exact findFirst_settles ev tree name _ ih []
  | lookup views h =>
    unfold find
    refine ⟨ofAnswer name ((views.get? name).getD .none), ?_, fun _ => .ofFailure _⟩
    cases hanswer : ofAnswer name ((views.get? name).getD .none) with
    | error f => exact ofAnswer_refusal hanswer
    | ok l => exact h name l hanswer
  | shouting =>
    unfold find
    exact ⟨.ok _, .inr rfl, fun _ => .ofFailure (.ok _)⟩

end Loader

namespace Environment

/-- Asked for a name in the middle of any render, an environment answers with `r`. -/
def Gives (env : Environment) (name : String) (r : Except Failure Template) : Prop :=
  ∀ calls, (env.loadUnder calls name).Settles r

/-- The content of an environment: its answer to every name. -/
structure Holds (env : Environment) (content : String → Except Failure Template) : Prop where
  gives : ∀ name, env.Gives name (content name)
  refusal : ∀ name f, content name = .error f → Refusal name f

def ofSource (env : Environment) (s : Source) : Except Failure Template :=
  match env.host.breakdown? s with
  | some b => .error (.fault b.fault)
  | none => Template.ofSource s env.lenient

theorem compileSource_settles (env : Environment) (s : Source) :
    (env.compileSource s).Settles (env.ofSource s) := by
  unfold compileSource ofSource
  cases env.host.breakdown? s with
  | some b => exact .ofFailure (.error _)
  | none => exact Template.compile_settles s env.lenient

theorem ofSource_ok {env : Environment} {s : Source} {t : Template} (h : env.ofSource s = .ok t) :
    Template.ofSource s env.lenient = .ok t := by
  unfold ofSource at h
  split at h
  · cases h
  · exact h

theorem ofSource_refusal {env : Environment} {s : Source} {name : String}
    (hs : s.name = some name) {f : Failure} (h : env.ofSource s = .error f) : Refusal name f := by
  unfold ofSource at h
  split at h
  · rename_i b _
    cases h
    cases b <;> exact .fault rfl
  · exact Template.ofSource_refusal hs h

theorem compileLoaded_settles (env : Environment) (name : String) {l : Loaded}
    (hl : l.HasPlainName) :
    ∃ filename, (env.compileLoaded name l).Settles
      (env.ofSource ⟨l.source, some name, filename⟩) := by
  unfold compileLoaded
  rcases hl with ⟨s, hs⟩ | hnone
  · rw [hs]
    exact ⟨some s, env.compileSource_settles _⟩
  · rw [hnone]
    exact ⟨none, env.compileSource_settles _⟩

theorem compileLoaded_ok {env : Environment} {name : String} {l : Loaded} {t : Template}
    {w w₁ : World} (h : (env.compileLoaded name l).run w = .ok t w₁) :
    ∃ filename, Template.ofSource ⟨l.source, some name, filename⟩ env.lenient = .ok t := by
  unfold compileLoaded at h
  split at h
  · exact ⟨_, ofSource_ok ((env.compileSource_settles _).of_ok h).1⟩
  · obtain ⟨heap, w', hheap, h⟩ := Action.bind_ok h
    by_cases hv : Value.truth heap l.filename
    · rw [if_pos hv] at h
      obtain ⟨_, w'', _, h⟩ := Action.bind_ok h
      cases h
    · rw [if_neg hv] at h
      exact ⟨_, ofSource_ok ((env.compileSource_settles _).of_ok h).1⟩

/-- Whatever the loader, a loaded template has the name it was asked for. -/
theorem loadUnder_ok {env : Environment} {calls : Nat} {name : String} {t : Template}
    {w w₁ : World} (h : (env.loadUnder calls name).run w = .ok t w₁) :
    t.name = some name ∧ t.IsRead := by
  unfold loadUnder at h
  cases hl : env.loader with
  | none =>
    rw [hl] at h
    cases h
  | some l =>
    rw [hl] at h
    obtain ⟨found, w', _, h⟩ := Action.bind_ok h
    obtain ⟨filename, ht⟩ := compileLoaded_ok h
    obtain ⟨hsource, hread⟩ := Template.ofSource_ok ht
    exact ⟨by rw [Template.name, hsource], hread⟩

theorem Gives.read {env : Environment} {name : String} {t : Template}
    (h : env.Gives name (.ok t)) : t.name = some name ∧ t.IsRead := by
  obtain ⟨notices, hrun⟩ := h 0 World.fresh
  exact loadUnder_ok hrun

theorem exists_gives (env : Environment) (hl : ∀ l, env.loader = some l → l.IsFixed)
    (name : String) : ∃ r, env.Gives name r ∧ ∀ f, r = .error f → Refusal name f := by
  unfold Gives loadUnder
  cases hloader : env.loader with
  | none =>
    refine ⟨_, fun calls => Action.Settles.ofFailure (.error _), fun f hf => ?_⟩
    cases hf
    exact .missing _
  | some l =>
    obtain ⟨r, hproper, hr⟩ :=
      Loader.find_settles Evaluator.standard env.files name (hl l hloader)
    cases r with
    | error f =>
      refine ⟨.error f, fun calls => (hr calls).bind (g := fun _ => .error f) nofun,
        fun f' hf => ?_⟩
      cases hf
      exact hproper
    | ok found =>
      obtain ⟨filename, hc⟩ := env.compileLoaded_settles name hproper
      refine ⟨env.ofSource ⟨found.source, some name, filename⟩, fun calls =>
        (hr calls).bind (g := fun _ => env.ofSource _) fun a ha => ?_,
        fun f hf => ofSource_refusal rfl hf⟩
      cases ha
      exact hc

/-- What fixed loaders offer does not change while a template is rendered. -/
theorem exists_holds (env : Environment) (hl : ∀ l, env.loader = some l → l.IsFixed) :
    ∃ content, env.Holds content := by
  obtain ⟨content, hcontent⟩ := Classical.axiomOfChoice (env.exists_gives hl)
  exact ⟨content, fun name => (hcontent name).1, fun name => (hcontent name).2⟩

/-- An environment that has nothing but a table of templates. -/
def ofTable (templates : List (String × String)) : Environment :=
  ⟨some (.table templates), [], [], Boundary.usualLimit, false, .empty, .even⟩

theorem ofTable_holds (templates : List (String × String)) :
    ∃ content, (ofTable templates).Holds content := by
  refine exists_holds _ fun l hl => ?_
  cases hl
  exact .table templates

theorem Holds.content_of_value? {env : Environment} {content : String → Except Failure Template}
    (hc : env.Holds content) {name : String} {w : World} {t : Template}
    (h : (env.load name).value? w = some t) : content name = .ok t := by
  obtain ⟨w₁, hrun⟩ := Action.run_of_value? h
  exact ((hc.gives name 0).of_ok hrun).1

end Environment

end Stencil
