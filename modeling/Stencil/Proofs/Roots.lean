import Mathlib.Data.List.Induction
import Stencil.Loader

/-!
# Files inside their roots

A loader of files serves a name from the first root that has the file the name stands for. Links
are followed wherever they stand in a path, one step after the other: the relation `Walks` says so
without regard to links that are being followed already, and a path leads nowhere if its links run
in a circle. A file counts only if it is inside the root once all links of both paths are followed.
-/

namespace Stencil

namespace Text

theorem splitOn_singleton (c : Char) (s : List Char) : splitOn [c] none s = s.splitOn c := by
  unfold splitOn
  induction s with
  | nil => rfl
  | cons d s ih =>
    rw [List.splitOn_cons_eq_if_modifyHead, ← ih]
    by_cases hd : d = c
    · subst hd
      simp [splitFrom, dropBeginning?]
    · have hcd : (c == d) = false := beq_eq_false_iff_ne.mpr (Ne.symm hd)
      have hdc : (d == c) = false := beq_eq_false_iff_ne.mpr hd
      simp only [splitFrom, dropBeginning?, hcd, hdc]
      cases hrest : splitFrom [c] 0 none s with
      | nil =>
        rw [ih] at hrest
        exact absurd hrest (List.splitOn_ne_nil _ _)
      | cons piece pieces => simp

theorem not_mem_of_mem_splitOn {c : Char} {s piece : List Char} (h : piece ∈ s.splitOn c) :
    c ∉ piece := by
  induction s generalizing piece with
  | nil => simp_all [List.splitOn_nil]
  | cons d s ih =>
    rw [List.splitOn_cons_eq_if_modifyHead] at h
    split at h
    · rcases List.mem_cons.mp h with rfl | h
      · simp
      · exact ih h
    · rename_i hd
      cases hpieces : s.splitOn c with
      | nil => exact absurd hpieces (List.splitOn_ne_nil c s)
      | cons first pieces =>
        rw [hpieces] at h ih
        rcases List.mem_cons.mp h with rfl | h
        · have hdc : c ≠ d := fun hdc => hd (by simp [hdc])
          simpa [hdc] using ih List.mem_cons_self
        · exact ih (List.mem_cons_of_mem first h)

end Text

namespace FileTree

theorem segments_append_slash (a b : String) :
    segments (a ++ "/" ++ b) = segments a ++ segments b := by
  have hslash : (a ++ "/" ++ b).toList = a.toList ++ '/' :: b.toList := by simp
  unfold segments
  simp only [hslash, Text.splitOn_singleton, List.splitOn_append_cons_self, List.map_append,
    List.filter_append]

theorem segments_plain {p : String} (hslash : '/' ∉ p.toList) (hne : p ≠ "") (hdot : p ≠ ".") :
    segments p = [p] := by
  unfold segments
  rw [Text.splitOn_singleton, List.splitOn_eq_singleton hslash]
  simp [hne, hdot]

/-- From the directory `base`, the segments `rest` lead to the last path in so many steps. A link
is walked from the top; what does not exist is kept as it is. -/
inductive Walks (t : FileTree) : Nat → List String → List String → List String → Prop
  | done (base : List String) : Walks t 0 base [] base
  | up {n : Nat} {base rest p : List String} (h : Walks t n base.dropLast rest p) :
      Walks t (n + 1) base (".." :: rest) p
  | down {n : Nat} {s : String} {base rest p : List String} (hs : s ≠ "..")
      (hplain : ∀ target, t.found? (base ++ [s]) ≠ some (.link target))
      (h : Walks t n (base ++ [s]) rest p) : Walks t (n + 1) base (s :: rest) p
  | link {m n : Nat} {s : String} {base rest target p q : List String} (hs : s ≠ "..")
      (hlink : t.found? (base ++ [s]) = some (.link target)) (htarget : Walks t m [] target p)
      (h : Walks t n p rest q) : Walks t (m + n + 1) base (s :: rest) q

def LeadsTo (t : FileTree) (path p : List String) : Prop := ∃ n, t.Walks n [] path p

variable {t : FileTree}

theorem Walks.unique {m n : Nat} {base rest p q : List String} (h : t.Walks m base rest p)
    (h' : t.Walks n base rest q) : m = n ∧ p = q := by
  induction h generalizing n q with
  | done base =>
    cases h'
    exact ⟨rfl, rfl⟩
  | up h ih =>
    cases h' with
    | up h' =>
      obtain ⟨rfl, rfl⟩ := ih h'
      exact ⟨rfl, rfl⟩
    | down hs => exact absurd rfl hs
    | link hs => exact absurd rfl hs
  | down hs hplain h ih =>
    cases h' with
    | up => exact absurd rfl hs
    | down _ _ h' =>
      obtain ⟨rfl, rfl⟩ := ih h'
      exact ⟨rfl, rfl⟩
    | link _ hlink => exact absurd hlink (hplain _)
  | link hs hlink htarget h ihtarget ih =>
    cases h' with
    | up => exact absurd rfl hs
    | down _ hplain => exact absurd hlink (hplain _)
    | link _ hlink' htarget' h' =>
      rw [hlink] at hlink'
      cases hlink'
      obtain ⟨rfl, rfl⟩ := ihtarget htarget'
      obtain ⟨rfl, rfl⟩ := ih h'
      exact ⟨rfl, rfl⟩

theorem LeadsTo.unique {path p q : List String} (h : t.LeadsTo path p) (h' : t.LeadsTo path q) :
    p = q := by
  obtain ⟨m, hm⟩ := h
  obtain ⟨n, hn⟩ := h'
  exact (hm.unique hn).2

theorem walks_of_resolveFrom {following : List (List String)} {base rest p : List String}
    (h : t.resolveFrom following base rest = .reached p) : ∃ n, t.Walks n base rest p := by
  fun_induction resolveFrom t following base rest generalizing p with
  | case1 following base =>
    cases h
    exact ⟨0, .done base⟩
  | case2 following base rest ih =>
    obtain ⟨n, hn⟩ := ih h
    exact ⟨n + 1, .up hn⟩
  | case3 => cases h
  | case4 => cases h
  | case5 following base s rest hs target hlink _ _ p₁ hinner ihinner ih =>
    obtain ⟨m, hm⟩ := ihinner hinner
    obtain ⟨n, hn⟩ := ih h
    exact ⟨m + n + 1, .link hs hlink hm hn⟩
  | case6 following base s rest hs hplain ih =>
    obtain ⟨n, hn⟩ := ih h
    exact ⟨n + 1, .down hs (fun target hfound => hplain target hfound) hn⟩

def Guarded (t : FileTree) (following : List (List String)) (n : Nat) : Prop :=
  ∀ l ∈ following, ∀ target m p, t.found? l = some (.link target) → t.Walks m [] target p → n ≤ m

theorem Guarded.mono {following : List (List String)} {m n : Nat} (h : t.Guarded following n)
    (hmn : m ≤ n) : t.Guarded following m := by
  intro l hl target k p hlink hwalk
  have := h l hl target k p hlink hwalk
  omega

/-- A walk in which a link is followed inside of itself would have to be longer than itself. -/
theorem not_walks_of_circle {following : List (List String)} {base rest p q : List String} {n : Nat}
    (h : t.resolveFrom following base rest = .circle q) (hguarded : t.Guarded following n) :
    ¬ t.Walks n base rest p := by
  intro hwalk
  fun_induction resolveFrom t following base rest generalizing n p q with
  | case1 => cases h
  | case2 following base rest ih =>
    cases hwalk with
    | up hwalk => exact ih h (hguarded.mono (Nat.le_succ _)) hwalk
    | down hs => exact hs rfl
    | link hs => exact hs rfl
  | case3 following base s rest hs target hlink hagain =>
    cases hwalk with
    | up => exact hs rfl
    | down _ hplain => exact hplain target hlink
    | @link m k _ _ _ target' p' _ _ hlink' htarget hwalk =>
      have hmem : base ++ [s] ∈ following := List.contains_iff_mem.mp hagain
      have hlong := hguarded _ hmem target' m p' hlink' htarget
      omega
  | case4 following base s rest hs target hlink _ _ p₁ hinner ihinner =>
    cases hwalk with
    | up => exact hs rfl
    | down _ hplain => exact hplain target hlink
    | @link m k _ _ _ target' p' _ _ hlink' htarget hwalk =>
      rw [hlink] at hlink'
      cases hlink'
      refine ihinner hinner ?_ htarget
      rw [Guarded, List.forall_mem_cons]
      constructor
      · intro target'' m' p'' hlink'' htarget''
        rw [hlink] at hlink''
        cases hlink''
        exact Nat.le_of_eq (htarget.unique htarget'').1
      · exact hguarded.mono (by omega)
  | case5 following base s rest hs target hlink _ _ p₁ hinner ihinner ih =>
    cases hwalk with
    | up => exact hs rfl
    | down _ hplain => exact hplain target hlink
    | @link m k _ _ _ target' p' _ _ hlink' htarget hwalk =>
      rw [hlink] at hlink'
      cases hlink'
      obtain ⟨m', hm'⟩ := walks_of_resolveFrom hinner
      obtain ⟨rfl, rfl⟩ := hm'.unique htarget
      exact ih h (hguarded.mono (by omega)) hwalk
  | case6 following base s rest hs hplain ih =>
    cases hwalk with
    | up => exact hs rfl
    | down _ _ hwalk => exact ih h (hguarded.mono (Nat.le_succ _)) hwalk
    | link _ hlink => exact hplain _ hlink

theorem resolve_eq_reached_iff {path p : List String} :
    t.resolve path = .reached p ↔ t.LeadsTo path p := by
  constructor
  · exact walks_of_resolveFrom
  · rintro ⟨n, hn⟩
    cases hresolve : t.resolve path with
    | reached q =>
      obtain ⟨m, hm⟩ := walks_of_resolveFrom hresolve
      rw [(hm.unique hn).2]
    | circle q => exact absurd hn (not_walks_of_circle hresolve (by simp [Guarded]))

theorem not_leadsTo_of_circle {path p q : List String} (h : t.resolve path = .circle q) :
    ¬ t.LeadsTo path p := by
  intro hleads
  rw [resolve_eq_reached_iff.mpr hleads] at h
  cases h

/-- No step of the path is a link or leads up. -/
structure IsResolved (t : FileTree) (path : List String) : Prop where
  no_link : ∀ q, q <+: path → ∀ target, t.found? q ≠ some (.link target)
  no_up : ".." ∉ path

theorem isResolved_nil : t.IsResolved [] where
  no_link := by
    intro q hq target
    rw [List.prefix_nil.mp hq]
    simp [found?]
  no_up := by simp

theorem IsResolved.dropLast {path : List String} (h : t.IsResolved path) :
    t.IsResolved path.dropLast where
  no_link q hq := h.no_link q (hq.trans (List.dropLast_prefix path))
  no_up hup := h.no_up (List.dropLast_subset path hup)

theorem IsResolved.concat {path : List String} {s : String} (h : t.IsResolved path) (hs : s ≠ "..")
    (hplain : ∀ target, t.found? (path ++ [s]) ≠ some (.link target)) :
    t.IsResolved (path ++ [s]) where
  no_link q hq := by
    rcases List.prefix_concat_iff.mp hq with rfl | hq
    · exact hplain
    · exact h.no_link q hq
  no_up := by
    rw [List.mem_append, List.mem_singleton]
    rintro (hup | rfl)
    · exact h.no_up hup
    · exact hs rfl

theorem Walks.isResolved {n : Nat} {base rest p : List String} (h : t.Walks n base rest p)
    (hbase : t.IsResolved base) : t.IsResolved p := by
  induction h with
  | done base => exact hbase
  | up h ih => exact ih hbase.dropLast
  | down hs hplain h ih => exact ih (hbase.concat hs hplain)
  | link hs hlink htarget h ihtarget ih => exact ih (ihtarget isResolved_nil)

theorem LeadsTo.isResolved {path p : List String} (h : t.LeadsTo path p) : t.IsResolved p :=
  h.elim fun _ hwalk => hwalk.isResolved isResolved_nil

theorem Walks.append {m n : Nat} {base path more p q : List String} (h : t.Walks m base path q)
    (hmore : t.Walks n q more p) : ∃ k, t.Walks k base (path ++ more) p := by
  induction h with
  | done base => exact ⟨n, hmore⟩
  | up h ih =>
    obtain ⟨k, hk⟩ := ih hmore
    exact ⟨k + 1, .up hk⟩
  | down hs hplain h ih =>
    obtain ⟨k, hk⟩ := ih hmore
    exact ⟨k + 1, .down hs hplain hk⟩
  | @link m n _ _ _ _ _ _ hs hlink htarget h ihtarget ih =>
    obtain ⟨k, hk⟩ := ih hmore
    exact ⟨m + k + 1, .link hs hlink htarget hk⟩

theorem Walks.split {n : Nat} {base path more p : List String}
    (h : t.Walks n base (path ++ more) p) :
    ∃ k m q, t.Walks k base path q ∧ t.Walks m q more p := by
  induction path generalizing n base with
  | nil => exact ⟨0, n, base, .done base, h⟩
  | cons s path ih =>
    cases h with
    | up h =>
      obtain ⟨k, m, q, hq, hm⟩ := ih h
      exact ⟨k + 1, m, q, .up hq, hm⟩
    | down hs hplain h =>
      obtain ⟨k, m, q, hq, hm⟩ := ih h
      exact ⟨k + 1, m, q, .down hs hplain hq, hm⟩
    | @link j _ _ _ _ _ _ _ hs hlink htarget h =>
      obtain ⟨k, m, q, hq, hm⟩ := ih h
      exact ⟨j + k + 1, m, q, .link hs hlink htarget hq, hm⟩

/-- Without links, a path is walked step by step and leads to itself. -/
theorem IsResolved.walks {path : List String} (h : t.IsResolved path) :
    ∃ n, t.Walks n [] path path := by
  induction path using List.reverseRecOn with
  | nil => exact ⟨0, .done []⟩
  | append_singleton path s ih =>
    have hs : s ≠ ".." := fun hs => h.no_up (by simp [hs])
    have hpath : t.IsResolved path := by simpa using h.dropLast
    obtain ⟨n, hn⟩ := ih hpath
    exact hn.append (.down hs (h.no_link _ (List.prefix_refl _)) (.done _))

theorem leadsTo_append {path more p : List String} :
    t.LeadsTo (path ++ more) p ↔ ∃ q, t.LeadsTo path q ∧ t.LeadsTo (q ++ more) p := by
  constructor
  · rintro ⟨n, hwalk⟩
    obtain ⟨k, m, q, hq, hm⟩ := hwalk.split
    obtain ⟨j, hj⟩ := (hq.isResolved isResolved_nil).walks
    exact ⟨q, ⟨k, hq⟩, hj.append hm⟩
  · rintro ⟨q, ⟨k, hq⟩, n, hwalk⟩
    obtain ⟨i, m, q', hq', hm⟩ := hwalk.split
    obtain ⟨j, hj⟩ := (hq.isResolved isResolved_nil).walks
    rw [← (hj.unique hq').2] at hm
    exact hq.append hm

end FileTree

namespace FileLoader

/-- Neither empty nor the mark of a home directory, without dots and path separators. -/
def IsPart (p : String) : Prop :=
  p ≠ "" ∧ p ≠ "~" ∧ '.' ∉ p.toList ∧ '/' ∉ p.toList ∧ '\\' ∉ p.toList

/-- The name consists of the parts, with dots between them. -/
def Names (name : String) (parts : List String) : Prop :=
  parts ≠ [] ∧ (∀ p ∈ parts, IsPart p) ∧ name = ".".intercalate parts

def pathUnder (l : FileLoader) (root : String) (parts : List String) : List String :=
  FileTree.segments (root ++ "/" ++ ("/".intercalate parts ++ l.extension))

section Paths

variable {l : FileLoader}

theorem segments_last {p : String} (hp : IsPart p) : FileTree.segments p = [p] := by
  obtain ⟨hne, -, hdot, hslash, -⟩ := hp
  apply FileTree.segments_plain hslash hne
  rintro rfl
  exact hdot (by decide)

theorem segments_parts {parts : List String} (hne : parts ≠ []) (hparts : ∀ p ∈ parts, IsPart p)
    (ending : String) :
    FileTree.segments ("/".intercalate parts ++ ending) =
      parts.dropLast ++ FileTree.segments (parts.getLastD "" ++ ending) := by
  induction parts with
  | nil => exact absurd rfl hne
  | cons p parts ih =>
    cases parts with
    | nil => simp
    | cons q parts =>
      obtain ⟨hp, hparts⟩ := List.forall_mem_cons.mp hparts
      have hrest := ih (by simp) hparts
      have hjoined : "/".intercalate (p :: q :: parts) ++ ending =
          p ++ "/" ++ ("/".intercalate (q :: parts) ++ ending) := by
        simp [String.append_assoc]
      rw [hjoined, FileTree.segments_append_slash, segments_last hp, hrest]
      simp

theorem split_of_names {name : String} {parts : List String} (h : Names name parts) :
    (Text.splitOn ['.'] none name.toList).map String.ofList = parts := by
  obtain ⟨hne, hparts, rfl⟩ := h
  have hdots : ∀ s ∈ parts.map String.toList, '.' ∉ s := by
    intro s hs
    obtain ⟨p, hp, rfl⟩ := List.mem_map.mp hs
    exact (hparts p hp).2.2.1
  have hsplit := List.splitOn_intercalate '.' hdots (by simpa using hne)
  have htext : (".".intercalate parts).toList = ['.'].intercalate (parts.map String.toList) := by
    simp
  rw [Text.splitOn_singleton, htext, hsplit]
  simp

theorem names_split (name : String) :
    name = ".".intercalate ((Text.splitOn ['.'] none name.toList).map String.ofList) := by
  apply String.toList_injective
  rw [Text.splitOn_singleton]
  have hjoin := @List.intercalate_splitOn _ name.toList _ _ '.'
  simp [hjoin]

def pathBelow (l : FileLoader) (parts : List String) : List String :=
  parts.dropLast ++ FileTree.segments (parts.getLastD "" ++ l.extension)

theorem Names.pathUnder_eq {name : String} {parts : List String} (h : Names name parts)
    (root : String) : l.pathUnder root parts = FileTree.segments root ++ l.pathBelow parts := by
  unfold pathUnder pathBelow
  rw [FileTree.segments_append_slash, segments_parts h.1 h.2.1]

theorem Names.relativePath? {name : String} {parts : List String} (h : Names name parts) :
    l.relativePath? name = some (l.pathBelow parts) := by
  have hfine : ∀ p ∈ parts, (p ≠ "" && p ≠ "~" && !p.toList.contains '/' &&
      !p.toList.contains '\\') = true := by
    intro p hp
    obtain ⟨hne, hhome, -, hslash, hback⟩ := h.2.1 p hp
    simp [hne, hhome, hslash, hback]
  unfold FileLoader.relativePath?
  simp only [split_of_names h]
  rw [if_pos (List.all_eq_true.mpr hfine)]
  rfl

theorem exists_names {name : String} {path : List String} (h : l.relativePath? name = some path) :
    ∃ parts, Names name parts := by
  refine ⟨(Text.splitOn ['.'] none name.toList).map String.ofList, ?_, ?_, names_split name⟩
  · rw [Text.splitOn_singleton]
    simp [List.splitOn_ne_nil]
  · intro p hp
    unfold FileLoader.relativePath? at h
    simp only at h
    split at h
    · rename_i hfine
      have hp' := List.all_eq_true.mp hfine p hp
      obtain ⟨piece, hpiece, rfl⟩ := List.mem_map.mp hp
      rw [Text.splitOn_singleton] at hpiece
      have hdot := Text.not_mem_of_mem_splitOn hpiece
      simp only [ne_eq, Bool.and_eq_true, decide_eq_true_eq, Bool.not_eq_true'] at hp'
      obtain ⟨⟨⟨hne, hhome⟩, hslash⟩, hback⟩ := hp'
      exact ⟨hne, hhome, by simpa using hdot, by simpa using hslash, by simpa using hback⟩
    · cases h

end Paths

/-- The parts stand for the file `full` under the root: the path leads there, it is inside of the
place where the root leads, and a file with this content is there. -/
structure IsFile (l : FileLoader) (t : FileTree) (root : String) (parts full : List String)
    (content : List UInt8) : Prop where
  leads : t.LeadsTo (l.pathUnder root parts) full
  inside : ∃ base, t.LeadsTo (FileTree.segments root) base ∧ base <+: full
  file : t.found? full = some (.file content)

def Has (l : FileLoader) (t : FileTree) (root : String) (parts : List String) : Prop :=
  ∃ full content, l.IsFile t root parts full content

/-- Why the system does not tell whether the root has the file, or what is in it. -/
inductive Refused (l : FileLoader) (t : FileTree) (root : String) (parts : List String) : Prop
  /-- A null character, in the path or in where its root leads. -/
  | nul {path : List String} {s : String}
      (hpath : path = l.pathUnder root parts ∨ t.LeadsTo (FileTree.segments root) path)
      (hs : s ∈ path) (hnul : Char.ofNat 0 ∈ s.toList)
  | circle (h : ∀ full, ¬ t.LeadsTo (l.pathUnder root parts) full)
  | tooLong {full : List String} {s : String} (h : t.LeadsTo (l.pathUnder root parts) full)
      (hs : s ∈ full) (hlong : FileTree.longestName < s.utf8ByteSize)
  | undecodable {full : List String} {content : List UInt8} {f : Fault}
      (h : l.IsFile t root parts full content)
      (hf : Decoding.fileText l.encoding content = .error f)

section Under

variable {l : FileLoader} {t : FileTree} {root name : String} {parts : List String}

theorem bind_of_ok {α β : Type} (a : α) (f : α → Except Fault β) : (Except.ok a >>= f) = f a :=
  rfl

theorem checkNames_cases (path : List String) :
    FileTree.checkNames path = .ok () ∨
      (∃ f, FileTree.checkNames path = .error f) ∧ ∃ s ∈ path, Char.ofNat 0 ∈ s.toList := by
  unfold FileTree.checkNames
  split
  · rename_i hany
    obtain ⟨s, hs, hnul⟩ := List.any_eq_true.mp hany
    exact .inr ⟨⟨_, rfl⟩, s, hs, by simpa using hnul⟩
  · exact .inl rfl

theorem checkLengths_error {path : List String} {f : Fault} (h : t.checkLengths path = .error f) :
    ∃ s ∈ path, FileTree.longestName < s.utf8ByteSize := by
  unfold FileTree.checkLengths at h
  split at h
  · rename_i i hi
    obtain ⟨hlt, hlong, -⟩ := List.findIdx?_eq_some_iff_getElem.mp hi
    exact ⟨_, List.getElem_mem hlt, by simpa using hlong⟩
  · cases h

/-- A path is resolved, unless it has a null character or runs in a circle. -/
theorem resolved_cases (t : FileTree) (path : List String) :
    (∃ p, resolved t path = .ok p ∧ t.LeadsTo path p) ∨
      (∃ f, resolved t path = .error f) ∧
        ((∃ s ∈ path, Char.ofNat 0 ∈ s.toList) ∨ ∀ p, ¬ t.LeadsTo path p) := by
  unfold resolved
  rcases checkNames_cases path with hnames | ⟨⟨f, hf⟩, hnul⟩
  · rw [hnames]
    cases hresolve : t.resolve path with
    | reached p => exact .inl ⟨p, rfl, FileTree.resolve_eq_reached_iff.mp hresolve⟩
    | circle p =>
      exact .inr ⟨⟨_, rfl⟩, .inr fun q => FileTree.not_leadsTo_of_circle hresolve⟩
  · rw [hf]
    exact .inr ⟨⟨f, rfl⟩, .inl hnul⟩

/-- What a look under one root says. -/
def Says (l : FileLoader) (t : FileTree) (root : String) (parts : List String) :
    Except Fault (Option Loaded) → Prop
  | .ok (some found) => ∃ full content, l.IsFile t root parts full content ∧
      Decoding.fileText l.encoding content = .ok found.source
  | .ok none => ¬ l.Has t root parts
  | .error _ => l.Refused t root parts

theorem under_answer (hnames : Names name parts) :
    l.Says t root parts (l.under t root (l.pathBelow parts)) := by
  have hpath := hnames.pathUnder_eq (l := l) root
  unfold under
  rcases resolved_cases t (FileTree.segments root) with
    ⟨base, hbase, hroot⟩ | ⟨⟨f, hf⟩, ⟨s, hs, hnul⟩ | hcircle⟩
  · rw [hbase]
    have hleads (full : List String) : t.LeadsTo (l.pathUnder root parts) full ↔
        t.LeadsTo (base ++ l.pathBelow parts) full := by
      rw [hpath, FileTree.leadsTo_append]
      constructor
      · rintro ⟨q, hq, hfull⟩
        rwa [hroot.unique hq]
      · exact fun hfull => ⟨base, hroot, hfull⟩
    rcases resolved_cases t (base ++ l.pathBelow parts) with
      ⟨full, hresolved, hfull⟩ | ⟨⟨f, hf⟩, ⟨s, hs, hnul⟩ | hcircle⟩
    · rw [bind_of_ok, hresolved, bind_of_ok]
      have hwhere : t.LeadsTo (l.pathUnder root parts) full := (hleads full).mpr hfull
      by_cases hinside : base <+: full
      · rw [if_neg (by simpa using hinside)]
        cases hlengths : t.checkLengths full with
        | error f =>
          obtain ⟨s, hs, hlong⟩ := checkLengths_error hlengths
          exact .tooLong hwhere hs hlong
        | ok _ =>
          rw [bind_of_ok]
          split
          · rename_i content hfound
            have hfile : l.IsFile t root parts full content :=
              ⟨hwhere, ⟨base, hroot, hinside⟩, hfound⟩
            cases htext : Decoding.fileText l.encoding content with
            | error f => exact .undecodable hfile htext
            | ok source => exact ⟨full, content, hfile, htext⟩
          · rename_i hnone
            rintro ⟨other, content, hfile⟩
            have hfound := hfile.file
            rw [← hwhere.unique hfile.leads] at hfound
            exact hnone content hfound
      · have houtside : base.isPrefixOf full = false := by
          rwa [← Bool.not_eq_true, List.isPrefixOf_iff_prefix]
        rw [if_pos (by simp [houtside])]
        rintro ⟨other, content, hfile⟩
        obtain ⟨base', hbase', hprefix⟩ := hfile.inside
        rw [← hwhere.unique hfile.leads, ← hroot.unique hbase'] at hprefix
        exact hinside hprefix
    · rw [bind_of_ok, hf]
      rcases List.mem_append.mp hs with hs | hs
      · exact .nul (.inr hroot) hs hnul
      · exact .nul (.inl rfl) (hpath ▸ List.mem_append_right _ hs) hnul
    · rw [bind_of_ok, hf]
      exact .circle fun full hfull => hcircle full ((hleads full).mp hfull)
  · rw [hf]
    exact .nul (.inl rfl) (hpath ▸ List.mem_append_left _ hs) hnul
  · rw [hf]
    refine .circle fun full hfull => ?_
    rw [hpath, FileTree.leadsTo_append] at hfull
    obtain ⟨q, hq, -⟩ := hfull
    exact hcircle q hq

theorem findUnder_answer (hnames : Names name parts) (roots : List String) :
    match l.findUnder t (l.pathBelow parts) roots with
    | .ok (some found) => ∃ before root after full content, roots = before ++ root :: after ∧
        (∀ r ∈ before, ¬ l.Has t r parts) ∧ l.IsFile t root parts full content ∧
        Decoding.fileText l.encoding content = .ok found.source
    | .ok none => ∀ root ∈ roots, ¬ l.Has t root parts
    | .error _ => ∃ before root after, roots = before ++ root :: after ∧
        (∀ r ∈ before, ¬ l.Has t r parts) ∧ l.Refused t root parts := by
  induction roots with
  | nil => simp [findUnder]
  | cons root roots ih =>
    have hanswer := @under_answer l t root name parts hnames
    unfold findUnder
    cases hunder : l.under t root (l.pathBelow parts) with
    | error f =>
      rw [hunder] at hanswer
      exact ⟨[], root, roots, rfl, by simp, hanswer⟩
    | ok found? =>
      rw [hunder] at hanswer
      rw [bind_of_ok]
      cases found? with
      | some found =>
        obtain ⟨full, content, hfile, htext⟩ := hanswer
        exact ⟨[], root, roots, full, content, rfl, by simp, hfile, htext⟩
      | none =>
        simp only
        revert ih
        cases l.findUnder t (l.pathBelow parts) roots with
        | error f =>
          rintro ⟨before, other, after, rfl, hbefore, hrefused⟩
          exact ⟨root :: before, other, after, rfl, List.forall_mem_cons.mpr ⟨hanswer, hbefore⟩,
            hrefused⟩
        | ok found? =>
          cases found? with
          | some found =>
            rintro ⟨before, other, after, full, content, rfl, hbefore, hfile⟩
            exact ⟨root :: before, other, after, full, content, rfl,
              List.forall_mem_cons.mpr ⟨hanswer, hbefore⟩, hfile⟩
          | none => exact fun ih => List.forall_mem_cons.mpr ⟨hanswer, ih⟩

end Under

/-- A loader of files stays inside its roots. A source is the content of a file that the parts of
the name stand for under a root, inside that root once no links are left, and no earlier root has
such a file. If a template is missing, then by its name, and no root has such a file. Otherwise a
root is refused that none with such a file comes before. -/
theorem find_stays_inside_roots (l : FileLoader) (t : FileTree) (name : String) :
    match l.find t name with
    | .ok found => ∃ parts before root after full content, Names name parts ∧
        l.roots = before ++ root :: after ∧ (∀ r ∈ before, ¬ l.Has t r parts) ∧
        l.IsFile t root parts full content ∧ t.IsResolved full ∧
        Decoding.fileText l.encoding content = .ok found.source
    | .error (.template e) => (∃ message, e = .notFound message (some name)) ∧
        ∀ parts, Names name parts → ∀ root ∈ l.roots, ¬ l.Has t root parts
    | .error (.fault _) => ∃ parts before root after, Names name parts ∧
        l.roots = before ++ root :: after ∧ (∀ r ∈ before, ¬ l.Has t r parts) ∧
        l.Refused t root parts := by
  unfold find
  cases hpath : l.relativePath? name with
  | none =>
    refine ⟨⟨_, rfl⟩, fun parts hnames => ?_⟩
    rw [hnames.relativePath?] at hpath
    cases hpath
  | some path =>
    obtain ⟨parts, hnames⟩ := exists_names hpath
    rw [hnames.relativePath?] at hpath
    cases hpath
    have hanswer := findUnder_answer (l := l) (t := t) hnames l.roots
    simp only
    revert hanswer
    cases l.findUnder t (l.pathBelow parts) l.roots with
    | error f =>
      rintro ⟨before, root, after, hroots, hbefore, hrefused⟩
      exact ⟨parts, before, root, after, hnames, hroots, hbefore, hrefused⟩
    | ok found? =>
      cases found? with
      | some found =>
        rintro ⟨before, root, after, full, content, hroots, hbefore, hfile, htext⟩
        exact ⟨parts, before, root, after, full, content, hnames, hroots, hbefore, hfile,
          hfile.leads.isResolved, htext⟩
      | none =>
        refine fun hnone => ⟨⟨_, rfl⟩, fun other hother => ?_⟩
        have hsame : other = parts := by rw [← split_of_names hother, split_of_names hnames]
        rwa [hsame]

end FileLoader

end Stencil
