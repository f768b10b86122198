import Stencil.Proofs.Listings
import Stencil.Proofs.Raising

/-!
# Choices among tables

However choices are nested, the tables in them stand in one order, from left to right, and a name
is answered by the first of them that has it. What a choice knows is what its tables have. So
neither depends on how the tables are grouped, nor on a table that has nothing of its own.
-/

namespace Stencil

namespace Loader

/-- The loader is a table, or a choice among such loaders. -/
inductive IsTabled : Loader → Prop
  | table (templates : List (String × String)) : IsTabled (.table templates)
  | choice (loaders : List Loader) (h : ∀ l ∈ loaders, IsTabled l) : IsTabled (.choice loaders)

mutual

/-- The tables of a loader, from left to right. -/
def tables : Loader → List (List (String × String))
  | .table templates => [templates]
  | .choice loaders => tablesOfAll loaders
  | _ => []

def tablesOfAll : List Loader → List (List (String × String))
  | [] => []
  | l :: ls => tables l ++ tablesOfAll ls

end

def firstSource? (name : String) (tables : List (List (String × String))) : Option String :=
  tables.findSome? (·.lookup name)

theorem lookup_isSome_iff {templates : List (String × String)} {name : String} :
    (templates.lookup name).isSome ↔ name ∈ templates.map (·.1) := by
  rw [List.lookup_isSome_iff, List.mem_map]
  constructor
  · rintro ⟨entry, hentry, hname⟩
    exact ⟨entry, hentry, (beq_iff_eq.mp hname).symm⟩
  · rintro ⟨entry, hentry, rfl⟩
    exact ⟨entry, hentry, beq_self_eq_true _⟩

theorem firstSource?_isSome_iff {name : String} {tables : List (List (String × String))} :
    (firstSource? name tables).isSome ↔ ∃ t ∈ tables, name ∈ t.map (·.1) := by
  unfold firstSource?
  rw [List.findSome?_isSome_iff]
  simp only [lookup_isSome_iff]

def Misses (name : String) (x : Action Loaded) (w : World) : Prop :=
  ∃ message, x.run w = .error (.failed (.template (.notFound message (some name)))) w

/-- The action gives the source and changes nothing; without a source, it misses the name. -/
def Answers (name : String) (x : Action Loaded) (w : World) : Option String → Prop
  | some source => x.run w = .ok ⟨source, .none⟩ w
  | none => Misses name x w

section Finding

variable (ev : Evaluator) (calls : Nat) (tree : FileTree) (name : String) (w : World)

theorem findFirst_answers {ls : List Loader}
    (hls : ∀ l ∈ ls, Answers name (find ev calls tree name l) w (firstSource? name l.tables))
    (count : Nat) (misses : List String) :
    Answers name (findFirst ev calls tree name count misses ls) w
      (firstSource? name (tablesOfAll ls)) := by
  induction ls generalizing misses with
  | nil =>
    unfold findFirst
    exact ⟨_, rfl⟩
  | cons l ls ih =>
    have hfirst := hls l List.mem_cons_self
    have hrest := ih fun l' hl' => hls l' (List.mem_cons_of_mem l hl')
    have hsplit : firstSource? name (tablesOfAll (l :: ls)) =
        (firstSource? name l.tables).or (firstSource? name (tablesOfAll ls)) := by
      unfold firstSource?
      rw [tablesOfAll, List.findSome?_append]
    rw [hsplit]
    unfold findFirst
    cases hsource : firstSource? name l.tables with
    | some source =>
      rw [hsource] at hfirst
      change EStateM.run _ w = _
      rw [Action.tryCatch_run, hfirst]
    | none =>
      rw [hsource] at hfirst
      obtain ⟨message, hmisses⟩ := hfirst
      rw [Option.none_or]
      -- a miss is noted, and the loaders behind are asked
      have hnext :=
        hrest (misses ++ [l.title ++ ": " ++ firstLineOf (.notFound message (some name))])
      cases hsources : firstSource? name (tablesOfAll ls) with
      | some source =>
        rw [hsources] at hnext
        change EStateM.run _ w = _
        rw [Action.tryCatch_run, hmisses]
        exact hnext
      | none =>
        rw [hsources] at hnext
        obtain ⟨message', hmisses'⟩ := hnext
        refine ⟨message', ?_⟩
        rw [Action.tryCatch_run, hmisses]
        exact hmisses'

theorem find_answers {l : Loader} (hl : l.IsTabled) :
    Answers name (find ev calls tree name l) w (firstSource? name l.tables) := by
  induction hl with
  | table templates =>
    unfold find
    have hone : firstSource? name (Loader.table templates).tables = templates.lookup name := by
      unfold firstSource? tables
      cases hlookup : templates.lookup name <;> simp [hlookup]
    rw [hone]
    cases templates.lookup name with
    | some source => rfl
    | none => exact ⟨_, rfl⟩
  | choice loaders h ih =>
    unfold find
    rw [tables]
    exact findFirst_answers ev calls tree name w ih loaders.length []

end Finding

theorem mem_namesOfAll {tree : FileTree} {name : String} {ls : List Loader}
    (hls : ∀ l ∈ ls, ∃ names, l.names? tree = some names ∧
      (name ∈ names ↔ ∃ t ∈ l.tables, name ∈ t.map (·.1))) :
    name ∈ namesOfAll tree ls ↔ ∃ t ∈ tablesOfAll ls, name ∈ t.map (·.1) := by
  induction ls with
  | nil => simp [namesOfAll, tablesOfAll]
  | cons l ls ih =>
    obtain ⟨names, hnames, hmem⟩ := hls l List.mem_cons_self
    have hrest := ih fun l' hl' => hls l' (List.mem_cons_of_mem l hl')
    rw [namesOfAll, tablesOfAll, hnames, Option.getD_some, List.mem_append, hmem, hrest]
    simp only [List.mem_append, or_and_right, exists_or]

theorem names?_eq {tree : FileTree} {l : Loader} (hl : l.IsTabled) :
    l.names? tree =
      some (FileLoader.sortedNames (l.tables.flatMap fun t => t.map (·.1))) := by
  have hmem (name : String) {names : List (List (String × String))} :
      name ∈ (names.flatMap fun t => t.map (·.1)) ↔ ∃ t ∈ names, name ∈ t.map (·.1) :=
    List.mem_flatMap
  induction hl with
  | table templates => simp [names?, tables]
  | choice loaders h ih =>
    rw [names?, tables]
    congr 1
    refine FileLoader.sortedNames_congr fun name => ?_
    rw [hmem]
    refine mem_namesOfAll fun l hl => ⟨_, ih l hl, ?_⟩
    rw [FileLoader.mem_sortedNames, hmem]

/-- A place among the members of a choice, which may itself be a member of another. -/
inductive Place
  | among (before after : List Loader)
  | inside (before : List Loader) (place : Place) (after : List Loader)

namespace Place

/-- The tree with these members at the place. -/
def fill (members : List Loader) : Place → Loader
  | among before after => .choice (before ++ members ++ after)
  | inside before place after => .choice (before ++ place.fill members :: after)

/-- The tables to the left of the place. -/
def tablesBefore : Place → List (List (String × String))
  | among before _ => tablesOfAll before
  | inside before place _ => tablesOfAll before ++ place.tablesBefore

def tablesBehind : Place → List (List (String × String))
  | among _ after => tablesOfAll after
  | inside _ place after => place.tablesBehind ++ tablesOfAll after

end Place

theorem tablesOfAll_append (ls more : List Loader) :
    tablesOfAll (ls ++ more) = tablesOfAll ls ++ tablesOfAll more := by
  induction ls with
  | nil => rfl
  | cons l ls ih => rw [List.cons_append, tablesOfAll, tablesOfAll, ih, List.append_assoc]

theorem tables_fill (place : Place) (members : List Loader) :
    (place.fill members).tables =
      place.tablesBefore ++ tablesOfAll members ++ place.tablesBehind := by
  induction place with
  | among before after =>
    rw [Place.fill, tables, tablesOfAll_append, tablesOfAll_append, Place.tablesBefore,
      Place.tablesBehind]
  | inside before place after ih =>
    rw [Place.fill, tables, tablesOfAll_append, tablesOfAll, ih, Place.tablesBefore,
      Place.tablesBehind]
    simp only [List.append_assoc]

/-- Members of a tree can be replaced by others of the same kind. -/
theorem IsTabled.fill {place : Place} {members others : List Loader}
    (h : (place.fill members).IsTabled) (hothers : (∀ m ∈ members, m.IsTabled) →
      ∀ m ∈ others, m.IsTabled) : (place.fill others).IsTabled := by
  induction place with
  | among before after =>
    cases h with
    | choice _ h =>
      have hmembers := hothers fun m hm => h m (by simp [hm])
      refine .choice _ fun l hl => ?_
      rcases List.mem_append.mp hl with hl | hl
      · rcases List.mem_append.mp hl with hl | hl
        · exact h l (by simp [hl])
        · exact hmembers l hl
      · exact h l (by simp [hl])
  | inside before place after ih =>
    cases h with
    | choice _ h =>
      refine .choice _ fun l hl => ?_
      rcases List.mem_append.mp hl with hl | hl
      · exact h l (by simp [hl])
      · rcases List.mem_cons.mp hl with rfl | hl
        · exact ih (h _ (by simp))
        · exact h l (by simp [hl])

/-- Two loaders find and list the same, but for the words in which they miss a name. -/
structure Alike (l l' : Loader) : Prop where
  find : ∀ ev calls tree name w,
    (l.find ev calls tree name).run w = (l'.find ev calls tree name).run w ∨
      Misses name (l.find ev calls tree name) w ∧ Misses name (l'.find ev calls tree name) w
  names : ∀ tree, l.names? tree = l'.names? tree

/-- Loaders of tables are alike if the first source of each name is the same. -/
theorem alike_of_firstSource? {l l' : Loader} (hl : l.IsTabled) (hl' : l'.IsTabled)
    (h : ∀ name, firstSource? name l.tables = firstSource? name l'.tables) : l.Alike l' where
  find ev calls tree name w := by
    have hfound := find_answers ev calls tree name w hl
    have hfound' := find_answers ev calls tree name w hl'
    rw [← h] at hfound'
    cases hsource : firstSource? name l.tables with
    | some source =>
      rw [hsource] at hfound hfound'
      exact .inl (Eq.trans hfound hfound'.symm)
    | none =>
      rw [hsource] at hfound hfound'
      exact .inr ⟨hfound, hfound'⟩
  names tree := by
    rw [names?_eq hl, names?_eq hl']
    congr 1
    refine FileLoader.sortedNames_congr fun name => ?_
    rw [List.mem_flatMap, List.mem_flatMap, ← firstSource?_isSome_iff, h, firstSource?_isSome_iff]

/-- A tree of choices over tables gives the source of the first table that has the name, and misses
the name if none has it; it lists, sorted and once each, exactly the names it finds. Putting the
members of a choice in the place of the choice changes neither, nor does leaving out a table all of
whose names are in tables before it. -/
theorem choices_flatten {l : Loader} (hl : l.IsTabled) :
    (∀ ev calls tree name w,
      match l.tables.findSome? (·.lookup name) with
      | some source => (l.find ev calls tree name).run w = .ok ⟨source, .none⟩ w
      | none => ∃ message, (l.find ev calls tree name).run w =
          .error (.failed (.template (.notFound message (some name)))) w) ∧
      (∀ tree, ∃ names, l.names? tree = some names ∧ names.Pairwise (· < ·) ∧
        ∀ name, name ∈ names ↔
          ∀ ev calls w, ∃ found, (l.find ev calls tree name).run w = .ok found w) ∧
      (∀ place inner, l = Place.fill [.choice inner] place → l.Alike (place.fill inner)) ∧
      (∀ place templates, l = Place.fill [.table templates] place →
        (∀ name ∈ templates.map (·.1), ∃ t ∈ place.tablesBefore, name ∈ t.map (·.1)) →
          l.Alike (place.fill [])) := by
  refine ⟨fun ev calls tree name w => ?_, fun tree => ⟨_, names?_eq hl, ?_, fun name => ?_⟩, ?_, ?_⟩
  · have hanswers := find_answers ev calls tree name w hl
    unfold firstSource? at hanswers
    cases hsource : l.tables.findSome? (·.lookup name) with
    | some source =>
      rw [hsource] at hanswers
      exact hanswers
    | none =>
      rw [hsource] at hanswers
      exact hanswers
  · exact FileLoader.sortedNames_sorted _
  · rw [FileLoader.mem_sortedNames, List.mem_flatMap, ← firstSource?_isSome_iff]
    constructor
    · intro hsome ev calls w
      obtain ⟨source, hsource⟩ := Option.isSome_iff_exists.mp hsome
      have hanswers := find_answers ev calls tree name w hl
      rw [hsource] at hanswers
      exact ⟨_, hanswers⟩
    · intro hfound
      obtain ⟨found, hfound⟩ := hfound Evaluator.standard 0 World.fresh
      have hanswers := find_answers Evaluator.standard 0 tree name World.fresh hl
      cases hsource : firstSource? name l.tables with
      | some source => rfl
      | none =>
        rw [hsource] at hanswers
        obtain ⟨message, hmisses⟩ := hanswers
        rw [hfound] at hmisses
        cases hmisses
  · rintro place inner rfl
    have hinner : (place.fill inner).IsTabled := by
      refine hl.fill fun hchoice m hm => ?_
      cases hchoice _ List.mem_cons_self with
      | choice _ h => exact h m hm
    refine alike_of_firstSource? hl hinner fun name => ?_
    rw [tables_fill, tables_fill, tablesOfAll, tablesOfAll, tables, List.append_nil]
  · rintro place templates rfl hcovered
    have hwithout : (place.fill []).IsTabled := hl.fill fun _ m hm => nomatch hm
    refine alike_of_firstSource? hl hwithout fun name => ?_
    have hown : templates.lookup name = none ∨
        (firstSource? name place.tablesBefore).isSome := by
      by_cases hname : name ∈ templates.map (·.1)
      · exact .inr (firstSource?_isSome_iff.mpr (hcovered name hname))
      · rw [← lookup_isSome_iff, Option.not_isSome_iff_eq_none] at hname
        exact .inl hname
    unfold firstSource? at hown ⊢
    simp only [tables_fill, tablesOfAll, tables, List.append_nil, List.findSome?_append,
      List.findSome?_cons, List.findSome?_nil]
    rcases hown with hnone | hsome
    · rw [hnone, Option.or_none]
    · obtain ⟨source, hsource⟩ := Option.isSome_iff_exists.mp hsome
      rw [hsource, Option.some_or, Option.some_or]

/-- Templates of an application in front of bundled ones, which come from two places. -/
def layered : Loader :=
  .choice [.table [("nav", "app nav")],
    .choice [.table [("nav", "nav"), ("footer", "footer")], .table [("footer", "old footer")]]]

theorem layered_flattens :
    layered.IsTabled ∧
      (layered.find Evaluator.standard 0 .empty "footer").run World.fresh =
        .ok ⟨"footer", .none⟩ World.fresh ∧
      layered.Alike (.choice [.table [("nav", "app nav")], .table [("nav", "nav"),
        ("footer", "footer")], .table [("footer", "old footer")]]) ∧
      layered.Alike (.choice [.table [("nav", "app nav")],
        .choice [.table [("nav", "nav"), ("footer", "footer")]]]) := by
  have htabled : layered.IsTabled := by
    refine .choice _ fun l hl => ?_
    simp only [List.mem_cons, List.not_mem_nil, or_false] at hl
    rcases hl with rfl | rfl
    · exact .table _
    · refine .choice _ fun l hl => ?_
      simp only [List.mem_cons, List.not_mem_nil, or_false] at hl
      rcases hl with rfl | rfl
      · exact .table _
      · exact .table _
  obtain ⟨hfind, -, hsplice, hdrop⟩ := choices_flatten htabled
  refine ⟨htabled, hfind Evaluator.standard 0 .empty "footer" World.fresh, ?_, ?_⟩
  · exact hsplice (.among [.table [("nav", "app nav")]] []) _ rfl
  · refine hdrop (.inside [.table [("nav", "app nav")]]
      (.among [.table [("nav", "nav"), ("footer", "footer")]] []) []) _ rfl ?_
    decide

end Loader

end Stencil
