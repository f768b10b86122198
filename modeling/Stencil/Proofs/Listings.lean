import Mathlib.Data.List.Sort
import Mathlib.Data.String.Basic
import Stencil.Proofs.Roots

/-!
# Listings

A listing of names is sorted and names nothing twice, so it is decided by which names are in it.
A loader of files lists whatever stands below a root and ends as templates do, cut at its ending.
For most of it, that is the name it is found by; the rest is stray: directories, and paths that no
name stands for, because nothing stands in front of the ending or because a part is not accepted
in a name.
-/

namespace Stencil

namespace FileLoader

theorem mem_sortedNames {names : List String} {name : String} :
    name ∈ sortedNames names ↔ name ∈ names := by
  rw [sortedNames, List.mem_eraseDups, List.mem_mergeSort]

theorem pairwise_eraseDups {names : List String} (h : names.Pairwise (· ≤ ·)) :
    names.eraseDups.Pairwise (· < ·) := by
  induction hn : names.length using Nat.strong_induction_on generalizing names with
  | _ n ih =>
    cases names with
    | nil => simp
    | cons name names =>
      obtain ⟨hfirst, hrest⟩ := List.pairwise_cons.mp h
      have hshorter : (names.filter fun other => !other == name).length < n := by
        rw [← hn]
        exact Nat.lt_succ_of_le (List.length_filter_le _ _)
      rw [List.eraseDups_cons, List.pairwise_cons]
      refine ⟨fun other hother => ?_, ih _ hshorter (hrest.filter _) rfl⟩
      obtain ⟨hmem, hne⟩ := List.mem_filter.mp (List.mem_eraseDups.mp hother)
      exact lt_of_le_of_ne (hfirst other hmem) (Ne.symm (by simpa using hne))

theorem sortedNames_sorted (names : List String) : (sortedNames names).Pairwise (· < ·) := by
  refine pairwise_eraseDups ?_
  have hsorted := @List.pairwise_mergeSort _ (fun a b : String => decide (a ≤ b))
    (fun a b c hab hbc => by simpa using le_trans (by simpa using hab) (by simpa using hbc))
    (fun a b => by simpa using le_total a b) names
  simpa using hsorted

theorem sortedNames_congr {names others : List String}
    (h : ∀ name, name ∈ names ↔ name ∈ others) : sortedNames names = sortedNames others := by
  have hnodup (l : List String) : (sortedNames l).Nodup :=
    (sortedNames_sorted l).imp fun hlt => ne_of_lt hlt
  have hperm : (sortedNames names).Perm (sortedNames others) := by
    refine (List.perm_ext_iff_of_nodup (hnodup names) (hnodup others)).mpr fun name => ?_
    rw [mem_sortedNames, mem_sortedNames, h]
  exact hperm.eq_of_pairwise (fun a b _ _ hab hba => absurd hab (lt_asymm hba))
    (sortedNames_sorted names) (sortedNames_sorted others)

end FileLoader

namespace FileTree

structure IsName (s : String) : Prop where
  not_empty : s ≠ ""
  not_dot : s ≠ "."
  not_up : s ≠ ".."
  no_slash : '/' ∉ s.toList
  no_nul : Char.ofNat 0 ∉ s.toList
  short : s.utf8ByteSize ≤ longestName

/-- A tree of directories and files as a system keeps it. -/
structure IsPlain (t : FileTree) : Prop where
  unique : ∀ entry ∈ t.entries, t.found? entry.1 = some entry.2
  inside : ∀ {path e q}, t.found? path = some e → q <+: path → q ≠ path →
    t.found? q = some .directory
  no_link : ∀ path target, t.found? path ≠ some (.link target)
  names : ∀ {path e}, t.found? path = some e → ∀ s ∈ path, IsName s

variable {t : FileTree}

theorem IsPlain.isResolved (ht : t.IsPlain) {path : List String} (h : ".." ∉ path) :
    t.IsResolved path := ⟨fun q _ target => ht.no_link q target, h⟩

theorem IsPlain.isResolved_of_found (ht : t.IsPlain) {path : List String} {e : FileEntry}
    (h : t.found? path = some e) : t.IsResolved path :=
  ht.isResolved fun hup => (ht.names h _ hup).not_up rfl

theorem IsPlain.mem_below (ht : t.IsPlain) {base path : List String} :
    path ∈ t.below base ↔ path ≠ [] ∧ ∃ e, t.found? (base ++ path) = some e := by
  unfold below
  rw [List.mem_filterMap]
  constructor
  · rintro ⟨⟨full, e⟩, hmem, hcut⟩
    dsimp only at hcut
    split at hcut
    · rename_i hdown
      simp only [leadsDown, Bool.and_eq_true, decide_eq_true_eq,
        List.isPrefixOf_iff_prefix] at hdown
      obtain ⟨hlength, ⟨rest, rfl⟩, -⟩ := hdown
      have hrest : path = rest := by simpa using hcut.symm
      rw [hrest]
      refine ⟨?_, e, ht.unique _ hmem⟩
      rintro rfl
      simp at hlength
    · cases hcut
  · rintro ⟨hne, e, he⟩
    have hfull : base ++ path ≠ [] := by simp [hne]
    have hlookup : t.entries.lookup (base ++ path) = some e := by
      unfold found? at he
      rwa [if_neg (by simpa using hfull)] at he
    obtain ⟨before, after, hentries, -⟩ := List.lookup_eq_some_iff.mp hlookup
    refine ⟨(base ++ path, e), by simp [hentries], ?_⟩
    have hlong : base.length < (base ++ path).length := by
      have := List.length_pos_iff.mpr hne
      rw [List.length_append]
      omega
    have hdown : t.leadsDown base (base ++ path) = true := by
      simp only [leadsDown, Bool.and_eq_true, List.isPrefixOf_iff_prefix, List.all_eq_true,
        List.mem_range, Bool.or_eq_true, decide_eq_true_eq]
      refine ⟨List.prefix_append _ _, fun n hn => .inr ?_⟩
      refine ht.inside he (List.take_prefix _ _) fun htake => ?_
      have := congrArg List.length htake
      rw [List.length_take] at this
      omega
    dsimp only
    rw [if_pos (by rw [hdown, decide_eq_true hlong, Bool.and_self]), List.drop_left]

theorem mem_entries_of_found? {path : List String} {e : FileEntry} (h : t.found? path = some e) :
    path = [] ∧ e = .directory ∨ (path, e) ∈ t.entries := by
  unfold found? at h
  split at h
  · rename_i hempty
    exact .inl ⟨List.isEmpty_iff.mp hempty, (Option.some.inj h).symm⟩
  · obtain ⟨before, after, hentries, -⟩ := List.lookup_eq_some_iff.mp h
    exact .inr (by simp [hentries])

theorem isPlain_of_entries (h : ∀ entry ∈ t.entries, t.found? entry.1 = some entry.2 ∧
    (∀ n < entry.1.length, t.found? (entry.1.take n) = some .directory) ∧
    (∀ target, entry.2 ≠ .link target) ∧ ∀ s ∈ entry.1, IsName s) : t.IsPlain where
  unique entry hentry := (h entry hentry).1
  inside := by
    intro path e q he hq hne
    rcases mem_entries_of_found? he with ⟨rfl, -⟩ | hmem
    · exact absurd (List.prefix_nil.mp hq) hne
    · have hlt : q.length < path.length :=
        lt_of_le_of_ne hq.length_le fun hlength => hne (hq.eq_of_length hlength)
      rw [List.prefix_iff_eq_take.mp hq]
      exact (h _ hmem).2.1 q.length hlt
  no_link path target he := by
    rcases mem_entries_of_found? he with ⟨-, hdirectory⟩ | hmem
    · cases hdirectory
    · exact (h _ hmem).2.2.1 target rfl
  names := by
    intro path e he s hs
    rcases mem_entries_of_found? he with ⟨rfl, -⟩ | hmem
    · cases hs
    · exact (h _ hmem).2.2.2 s hs

theorem IsPlain.isDirectory_of_found (ht : t.IsPlain) {path : List String}
    (h : t.found? path = some .directory) : t.isDirectory path = true := by
  unfold isDirectory
  refine List.all_eq_true.mpr fun n _ => ?_
  have hprefix : t.found? (path.take n) = some .directory := by
    by_cases hall : path.take n = path
    · rwa [hall]
    · exact ht.inside h (List.take_prefix n path) hall
  have hwalks := (ht.isResolved_of_found hprefix).walks
  rw [decide_eq_true_iff, target?, resolve_eq_reached_iff.mpr hwalks]
  exact hprefix

theorem leadsTo_of_isDirectory {path : List String} (h : t.isDirectory path = true) :
    ∃ base, t.LeadsTo path base ∧ t.found? base = some .directory := by
  have hlast := List.all_eq_true.mp h path.length (by simp)
  rw [List.take_length] at hlast
  have htarget : t.target? path = some .directory := by simpa using hlast
  unfold target? at htarget
  cases hresolve : t.resolve path with
  | circle p =>
    rw [hresolve] at htarget
    cases htarget
  | reached base =>
    rw [hresolve] at htarget
    exact ⟨base, resolve_eq_reached_iff.mp hresolve, htarget⟩

/-- Every step of a path that can be walked is an entry, or goes up. -/
theorem IsPlain.step_of_isDirectory (ht : t.IsPlain) {path : List String}
    (h : t.isDirectory path = true) : ∀ s ∈ path, s = ".." ∨ IsName s := by
  intro s hs
  obtain ⟨before, after, rfl⟩ := List.append_of_mem hs
  by_cases hup : s = ".."
  · exact .inl hup
  · have hbeginning : t.isDirectory (before ++ [s]) = true := by
      unfold isDirectory at h ⊢
      rw [List.all_eq_true] at h ⊢
      intro n hn
      have hn' : n ≤ before.length + 1 := by simpa [Nat.lt_succ_iff] using hn
      have htake : (before ++ s :: after).take n = (before ++ [s]).take n := by
        have hle : n ≤ (before ++ [s]).length := by simpa using hn'
        simpa using List.take_append_of_le_length hle
      rw [← htake]
      refine h n ?_
      simp only [List.mem_range, List.length_append, List.length_cons]
      omega
    obtain ⟨base, hbase, hfound⟩ := leadsTo_of_isDirectory hbeginning
    obtain ⟨q, hq, hstep⟩ := leadsTo_append.mp hbase
    have hnone : ".." ∉ q ++ [s] := by
      rw [List.mem_append, List.mem_singleton]
      rintro (hmem | hmem)
      · exact hq.isResolved.no_up hmem
      · exact hup hmem.symm
    have hself : base = q ++ [s] := hstep.unique (ht.isResolved hnone).walks
    rw [hself] at hfound
    exact .inr (ht.names hfound s (by simp))

end FileTree

namespace FileLoader

open FileTree (IsName IsPlain)

/-- No step of the path that the text writes is empty or a dot, and none goes up. -/
def IsStepwise (text : String) : Prop :=
  ∀ s ∈ text.toList.splitOn '/', s ≠ [] ∧ s ≠ ['.'] ∧ s ≠ ['.', '.']

theorem IsStepwise.segments_eq {text : String} (h : IsStepwise text) :
    FileTree.segments text = (text.toList.splitOn '/').map String.ofList := by
  unfold FileTree.segments
  rw [Text.splitOn_singleton]
  refine List.filter_eq_self.mpr fun s hs => ?_
  obtain ⟨piece, hpiece, rfl⟩ := List.mem_map.mp hs
  obtain ⟨hne, hdot, -⟩ := h piece hpiece
  have hempty : String.ofList piece ≠ "" := fun heq =>
    hne (by simpa using congrArg String.toList heq)
  have hone : String.ofList piece ≠ "." := fun heq =>
    hdot (by simpa using congrArg String.toList heq)
  simp [hempty, hone]

theorem IsStepwise.intercalate_segments {text : String} (h : IsStepwise text) :
    "/".intercalate (FileTree.segments text) = text := by
  apply String.toList_injective
  have hjoin := @List.intercalate_splitOn _ text.toList _ _ '/'
  rw [h.segments_eq]
  simp [hjoin]

theorem IsStepwise.no_up {text : String} (h : IsStepwise text) :
    ".." ∉ FileTree.segments text := by
  rw [h.segments_eq, List.mem_map]
  rintro ⟨piece, hpiece, hup⟩
  exact (h piece hpiece).2.2 (by simpa using congrArg String.toList hup)

theorem IsStepwise.segments_ne_nil {text : String} (h : IsStepwise text) :
    FileTree.segments text ≠ [] := by
  rw [h.segments_eq]
  simp [List.splitOn_ne_nil]

theorem IsStepwise.append_slash {text more : String} (h : IsStepwise text)
    (hmore : IsStepwise more) : IsStepwise (text ++ "/" ++ more) := by
  unfold IsStepwise
  have hslash : (text ++ "/" ++ more).toList = text.toList ++ '/' :: more.toList := by simp
  rw [hslash, List.splitOn_append_cons_self]
  intro s hs
  exact (List.mem_append.mp hs).elim (h s) (hmore s)

theorem segments_intercalate {path : List String} (h : ∀ s ∈ path, IsName s) :
    FileTree.segments ("/".intercalate path) = path := by
  induction path with
  | nil => rfl
  | cons s path ih =>
    have hs := h s List.mem_cons_self
    have hfirst := FileTree.segments_plain hs.no_slash hs.not_empty hs.not_dot
    have hrest := ih fun s' hs' => h s' (List.mem_cons_of_mem s hs')
    cases path with
    | nil => simpa using hfirst
    | cons s' path =>
      have hjoined : "/".intercalate (s :: s' :: path) =
          s ++ "/" ++ "/".intercalate (s' :: path) := by
        simp [String.append_assoc]
      rw [hjoined, FileTree.segments_append_slash, hfirst, hrest]
      rfl

/-- What stands behind the parts of a name: not nothing, and where it has slashes, what they cut
off is not empty, no dot and does not go up. -/
structure IsEnding (e : String) : Prop where
  not_empty : e ≠ ""
  steps : ∀ s ∈ (e.toList.splitOn '/').tail, s ≠ [] ∧ s ≠ ['.'] ∧ s ≠ ['.', '.']

theorem isEnding_of_no_slash {e : String} (hne : e ≠ "") (h : '/' ∉ e.toList) : IsEnding e where
  not_empty := hne
  steps := by
    rw [List.splitOn_eq_singleton h]
    simp

theorem splitOn_append_of_not_mem {c : Char} {p s : List Char} (h : c ∉ p) :
    (p ++ s).splitOn c = (s.splitOn c).modifyHead (p ++ ·) := by
  induction p with
  | nil => cases hs : s.splitOn c <;> simp [hs]
  | cons d p ih =>
    have hd : d ≠ c := fun hd => h (by simp [hd])
    have hp : c ∉ p := fun hp => h (List.mem_cons_of_mem d hp)
    rw [List.cons_append, List.splitOn_cons_eq_if_modifyHead, if_neg (by simpa using hd), ih hp]
    cases s.splitOn c <;> simp

section Endings

variable {l : FileLoader} {parts : List String}

/-- The path of a file is written as its parts and the ending. -/
theorem isStepwise_parts (hending : IsEnding l.extension) (hne : parts ≠ [])
    (hparts : ∀ p ∈ parts, IsPart p) :
    IsStepwise ("/".intercalate parts ++ l.extension) := by
  induction parts with
  | nil => exact absurd rfl hne
  | cons p parts ih =>
    obtain ⟨⟨hp, -, hdot, hslash, -⟩, hparts⟩ := List.forall_mem_cons.mp hparts
    have hchars : p.toList ≠ [] := by simpa using hp
    obtain ⟨c, rest, hcons⟩ := List.exists_cons_of_ne_nil hchars
    have hc : c ≠ '.' := fun hc => hdot (by simp [hcons, hc])
    cases parts with
    | nil =>
      intro s hs
      have htext : ("/".intercalate [p] ++ l.extension).toList =
          p.toList ++ l.extension.toList := by simp
      rw [htext, splitOn_append_of_not_mem hslash] at hs
      have hsteps := hending.steps
      cases hsplit : l.extension.toList.splitOn '/' with
      | nil => exact absurd hsplit (List.splitOn_ne_nil _ _)
      | cons first more =>
        rw [hsplit] at hs hsteps
        rcases List.mem_cons.mp hs with rfl | hs
        · rw [hcons]
          simp [hc]
        · exact hsteps s hs
    | cons q parts =>
      have hfirst : IsStepwise p := by
        intro s hs
        rw [List.splitOn_eq_singleton hslash, List.mem_singleton] at hs
        rw [hs, hcons]
        simp [hc]
      have hjoined : "/".intercalate (p :: q :: parts) ++ l.extension =
          p ++ "/" ++ ("/".intercalate (q :: parts) ++ l.extension) := by
        simp [String.append_assoc]
      rw [hjoined]
      exact hfirst.append_slash (ih (by simp) hparts)

theorem pathBelow_eq (hne : parts ≠ []) (hparts : ∀ p ∈ parts, IsPart p) :
    l.pathBelow parts = FileTree.segments ("/".intercalate parts ++ l.extension) := by
  rw [segments_parts hne hparts, pathBelow]

end Endings

section Listing

variable {l : FileLoader} {t : FileTree} {root name : String}

/-- The name of a path is what stands in front of the ending, with dots for slashes. -/
theorem nameAt?_eq_some {path : List String} :
    l.nameAt? path = some name ↔ ∃ stem, "/".intercalate path = stem ++ l.extension ∧
      (∀ p ∈ FileTree.segments stem, '.' ∉ p.toList) ∧
      name = ".".intercalate (FileTree.segments stem) := by
  have hcut (stem : String) (h : "/".intercalate path = stem ++ l.extension) :
      String.ofList (("/".intercalate path).toList.take
        (("/".intercalate path).length - l.extension.length)) = stem := by
    have hlength : (stem ++ l.extension).length - l.extension.length = stem.toList.length := by
      rw [String.length_append, Nat.add_sub_cancel, String.length_toList]
    rw [h, hlength, String.toList_append, List.take_left, String.ofList_toList]
  unfold nameAt?
  dsimp only
  constructor
  · intro h
    split at h
    · rename_i hlisted
      rw [Bool.and_eq_true, List.isSuffixOf_iff_suffix] at hlisted
      obtain ⟨⟨stem, hstem⟩, hdots⟩ := hlisted
      have htext : "/".intercalate path = String.ofList stem ++ l.extension := by
        apply String.toList_injective
        rw [← hstem]
        simp
      rw [hcut _ htext] at h hdots
      refine ⟨_, htext, fun p hp => ?_, (Option.some.inj h).symm⟩
      simpa using List.all_eq_true.mp hdots p hp
    · cases h
  · rintro ⟨stem, htext, hdots, rfl⟩
    rw [hcut stem htext, htext, if_pos]
    rw [Bool.and_eq_true, List.isSuffixOf_iff_suffix, List.all_eq_true]
    refine ⟨⟨stem.toList, by simp⟩, fun p hp => ?_⟩
    simpa using hdots p hp

theorem mem_names : name ∈ l.names t ↔ ∃ root ∈ l.roots,
    t.isDirectory (FileTree.segments root) = true ∧
      ∃ base, t.LeadsTo (FileTree.segments root) base ∧
        ∃ path ∈ t.below base, l.nameAt? path = some name := by
  unfold names
  rw [mem_sortedNames, List.mem_flatMap]
  refine exists_congr fun root => and_congr_right fun _ => ?_
  dsimp only
  cases hdirectory : t.isDirectory (FileTree.segments root) with
  | false => simp
  | true =>
    cases hresolve : t.resolve (FileTree.segments root) with
    | circle p =>
      have hnowhere (base : List String) : ¬ t.LeadsTo (FileTree.segments root) base :=
        FileTree.not_leadsTo_of_circle hresolve
      simp [hnowhere]
    | reached base =>
      have hleads := FileTree.resolve_eq_reached_iff.mp hresolve
      simp only [List.mem_filterMap, true_and]
      constructor
      · exact fun h => ⟨base, hleads, h⟩
      · rintro ⟨base', hbase', h⟩
        rwa [hleads.unique hbase']

/-- An entry below the root has a path of the stem and the ending and is listed by this name. -/
def Lists (l : FileLoader) (t : FileTree) (root name stem : String) (e : FileEntry) : Prop :=
  ∃ base path, t.LeadsTo (FileTree.segments root) base ∧ path ≠ [] ∧
    t.found? (base ++ path) = some e ∧ "/".intercalate path = stem ++ l.extension ∧
    (∀ p ∈ FileTree.segments stem, '.' ∉ p.toList) ∧
    name = ".".intercalate (FileTree.segments stem)

theorem mem_names_iff (ht : t.IsPlain)
    (hroots : ∀ root ∈ l.roots, t.isDirectory (FileTree.segments root) = true) :
    name ∈ l.names t ↔ ∃ root ∈ l.roots, ∃ stem e, l.Lists t root name stem e := by
  rw [mem_names]
  refine exists_congr fun root => and_congr_right fun hroot => ?_
  constructor
  · rintro ⟨-, base, hbase, path, hpath, hname⟩
    obtain ⟨hne, e, he⟩ := ht.mem_below.mp hpath
    obtain ⟨stem, htext, hdots, hname⟩ := nameAt?_eq_some.mp hname
    exact ⟨stem, e, base, path, hbase, hne, he, htext, hdots, hname⟩
  · rintro ⟨stem, e, base, path, hbase, hne, he, htext, hdots, hname⟩
    exact ⟨hroots root hroot, base, hbase, path, ht.mem_below.mpr ⟨hne, e, he⟩,
      nameAt?_eq_some.mpr ⟨stem, htext, hdots, hname⟩⟩

end Listing

section Finding

variable {l : FileLoader} {t : FileTree} {root name : String}

/-- All files can be read. -/
def Reads (l : FileLoader) (t : FileTree) : Prop :=
  ∀ path content, t.found? path = some (.file content) →
    ∃ text, Decoding.fileText l.encoding content = .ok text

theorem checkNames_ok {path : List String} (h : ∀ s ∈ path, Char.ofNat 0 ∉ s.toList) :
    FileTree.checkNames path = .ok () := by
  unfold FileTree.checkNames
  rw [if_neg]
  simpa using h

theorem checkLengths_ok {path : List String} (h : ∀ s ∈ path, IsName s) :
    t.checkLengths path = .ok () := by
  unfold FileTree.checkLengths
  have hnone : (path.findIdx? fun s => s.utf8ByteSize > FileTree.longestName) = none := by
    rw [List.findIdx?_eq_none_iff]
    intro s hs
    simpa using (h s hs).short
  rw [hnone]

theorem resolved_ok {path p : List String} (hnames : ∀ s ∈ path, Char.ofNat 0 ∉ s.toList)
    (hleads : t.LeadsTo path p) : resolved t path = .ok p := by
  unfold resolved
  rw [checkNames_ok hnames, bind_of_ok, FileTree.resolve_eq_reached_iff.mpr hleads]
  rfl

/-- Under a root that is there, a path of names is the file that has it. -/
theorem under_eq (ht : t.IsPlain) (hreads : l.Reads t)
    (hroot : t.isDirectory (FileTree.segments root) = true) {path : List String}
    (hpath : ∀ s ∈ path, IsName s) :
    l.under t root path = .ok none ∨ ∃ found, l.under t root path = .ok (some found) := by
  obtain ⟨base, hbase, hdirectory⟩ := FileTree.leadsTo_of_isDirectory hroot
  have hnames : ∀ s ∈ base ++ path, IsName s := fun s hs =>
    (List.mem_append.mp hs).elim (ht.names hdirectory s) (hpath s)
  have hself : t.LeadsTo (base ++ path) (base ++ path) :=
    (ht.isResolved fun hup => (hnames _ hup).not_up rfl).walks
  have hfirst : resolved t (FileTree.segments root) = .ok base := by
    refine resolved_ok (fun s hs => ?_) hbase
    rcases ht.step_of_isDirectory hroot s hs with rfl | hname
    · decide
    · exact hname.no_nul
  unfold under
  rw [hfirst, bind_of_ok, resolved_ok (fun s hs => (hnames s hs).no_nul) hself, bind_of_ok,
    if_neg (by simp), checkLengths_ok hnames, bind_of_ok]
  cases hfound : t.found? (base ++ path) with
  | none => exact .inl rfl
  | some e =>
    cases e with
    | file content =>
      obtain ⟨text, htext⟩ := hreads _ _ hfound
      dsimp only
      rw [htext, bind_of_ok]
      exact .inr ⟨_, rfl⟩
    | directory => exact .inl rfl
    | link target => exact .inl rfl

theorem findUnder_ok (ht : t.IsPlain) (hreads : l.Reads t) {path : List String}
    (hpath : ∀ s ∈ path, IsName s) {roots : List String}
    (hroots : ∀ root ∈ roots, t.isDirectory (FileTree.segments root) = true) :
    ∃ found?, l.findUnder t path roots = .ok found? := by
  induction roots with
  | nil => exact ⟨none, rfl⟩
  | cons root roots ih =>
    obtain ⟨hroot, hroots⟩ := List.forall_mem_cons.mp hroots
    unfold findUnder
    rcases under_eq ht hreads hroot hpath with hnone | ⟨found, hfound⟩
    · rw [hnone, bind_of_ok]
      exact ih hroots
    · rw [hfound, bind_of_ok]
      exact ⟨some found, rfl⟩

theorem isFile_iff (ht : t.IsPlain) (hending : IsEnding l.extension) {parts : List String}
    (hnames : Names name parts) :
    l.Has t root parts ↔ ∃ base content, t.LeadsTo (FileTree.segments root) base ∧
      t.found? (base ++ l.pathBelow parts) = some (.file content) := by
  have hno_up : ".." ∉ l.pathBelow parts := by
    rw [pathBelow_eq hnames.1 hnames.2.1]
    exact (isStepwise_parts hending hnames.1 hnames.2.1).no_up
  have hleads {base full : List String} (hbase : t.LeadsTo (FileTree.segments root) base) :
      t.LeadsTo (l.pathUnder root parts) full ↔ full = base ++ l.pathBelow parts := by
    have hnone : ".." ∉ base ++ l.pathBelow parts := fun hup =>
      (List.mem_append.mp hup).elim hbase.isResolved.no_up hno_up
    have hself := (ht.isResolved hnone).walks
    rw [hnames.pathUnder_eq, FileTree.leadsTo_append]
    constructor
    · rintro ⟨q, hq, hfull⟩
      rw [hq.unique hbase] at hfull
      exact hfull.unique hself
    · rintro rfl
      exact ⟨base, hbase, hself⟩
  constructor
  · rintro ⟨full, content, hfile⟩
    obtain ⟨base, hbase, -⟩ := hfile.inside
    have hfull := (hleads hbase).mp hfile.leads
    exact ⟨base, content, hbase, hfull ▸ hfile.file⟩
  · rintro ⟨base, content, hbase, hfound⟩
    exact ⟨_, content, (hleads hbase).mpr rfl, ⟨base, hbase, List.prefix_append _ _⟩, hfound⟩

/-- A name is found if and only if its parts stand for a file under a root. -/
theorem find_ok_iff (ht : t.IsPlain) (hreads : l.Reads t) (hending : IsEnding l.extension)
    (hroots : ∀ root ∈ l.roots, t.isDirectory (FileTree.segments root) = true) :
    (∃ found, l.find t name = .ok found) ↔
      ∃ parts, Names name parts ∧ ∃ root ∈ l.roots, l.Has t root parts := by
  constructor
  · rintro ⟨found, hfind⟩
    unfold find at hfind
    cases hpath : l.relativePath? name with
    | none =>
      rw [hpath] at hfind
      cases hfind
    | some path =>
      obtain ⟨parts, hnames⟩ := exists_names hpath
      rw [hnames.relativePath?] at hfind
      have hanswer := findUnder_answer (l := l) (t := t) hnames l.roots
      dsimp only at hfind
      split at hfind
      · rename_i found' hfound
        rw [hfound] at hanswer
        obtain ⟨before, root, after, full, content, hsplit, -, hfile, -⟩ := hanswer
        exact ⟨parts, hnames, root, by simp [hsplit], full, content, hfile⟩
      · cases hfind
      · cases hfind
  · rintro ⟨parts, hnames, root, hroot, hhas⟩
    obtain ⟨base, content, -, hfile⟩ := (isFile_iff ht hending hnames).mp hhas
    have hpath : ∀ s ∈ l.pathBelow parts, IsName s := fun s hs =>
      ht.names hfile s (List.mem_append_right base hs)
    obtain ⟨found?, hfound⟩ := findUnder_ok ht hreads hpath hroots
    have hanswer := findUnder_answer (l := l) (t := t) hnames l.roots
    unfold find
    rw [hnames.relativePath?]
    dsimp only
    rw [hfound] at hanswer ⊢
    cases found? with
    | some found => exact ⟨found, rfl⟩
    | none => exact absurd hhas (hanswer root hroot)

end Finding

/-- Something that is listed though no name leads to it: a directory, or a file with nothing or a
single dot in front of its ending, or with a part that is not accepted in a name. -/
inductive IsStray (stem : String) : FileEntry → Prop
  | directory : IsStray stem .directory
  | unnamed {content : List UInt8}
      (h : stem = "" ∨ "/".intercalate (FileTree.segments stem) ≠ stem) :
      IsStray stem (.file content)
  | barred {content : List UInt8} {p : String} (hp : p ∈ FileTree.segments stem)
      (h : p = "~" ∨ '\\' ∈ p.toList) : IsStray stem (.file content)

section Strays

variable {l : FileLoader} {t : FileTree} {root name stem : String} {e : FileEntry}

theorem mem_segments {text p : String} (h : p ∈ FileTree.segments text) :
    p ≠ "" ∧ '/' ∉ p.toList := by
  unfold FileTree.segments at h
  obtain ⟨hcut, hkept⟩ := List.mem_filter.mp h
  rw [Text.splitOn_singleton] at hcut
  obtain ⟨piece, hpiece, rfl⟩ := List.mem_map.mp hcut
  simp only [ne_eq, Bool.and_eq_true, decide_eq_true_eq] at hkept
  exact ⟨hkept.1, by simpa using Text.not_mem_of_mem_splitOn hpiece⟩

/-- What is listed and is no stray is found by the name it is listed under. -/
theorem Lists.has_of_not_stray (ht : t.IsPlain) (hending : IsEnding l.extension)
    (h : l.Lists t root name stem e) (hstray : ¬ IsStray stem e) :
    ∃ parts, Names name parts ∧ l.Has t root parts := by
  obtain ⟨base, path, hbase, -, he, htext, hdots, hname⟩ := h
  cases e with
  | directory => exact absurd .directory hstray
  | link target => exact absurd he (ht.no_link _ _)
  | file content =>
    have hstem : stem ≠ "" := fun h => hstray (.unnamed (.inl h))
    have hwritten : "/".intercalate (FileTree.segments stem) = stem := by
      by_contra h
      exact hstray (.unnamed (.inr h))
    have hparts : ∀ p ∈ FileTree.segments stem, IsPart p := by
      intro p hp
      obtain ⟨hne, hslash⟩ := mem_segments hp
      exact ⟨hne, fun h => hstray (.barred hp (.inl h)), hdots p hp, hslash,
        fun h => hstray (.barred hp (.inr h))⟩
    have hne : FileTree.segments stem ≠ [] := by
      intro hnil
      rw [hnil] at hwritten
      exact hstem hwritten.symm
    have hnames : Names name (FileTree.segments stem) := ⟨hne, hparts, hname⟩
    have hpath : path = l.pathBelow (FileTree.segments stem) := by
      rw [pathBelow_eq hne hparts, hwritten, ← htext, segments_intercalate]
      exact fun s hs => ht.names he s (List.mem_append_right base hs)
    exact ⟨_, hnames, (isFile_iff ht hending hnames).mpr ⟨base, content, hbase, hpath ▸ he⟩⟩

theorem Has.lists (ht : t.IsPlain) (hending : IsEnding l.extension) {parts : List String}
    (hnames : Names name parts) (h : l.Has t root parts) :
    ∃ content, l.Lists t root name ("/".intercalate parts) (.file content) := by
  obtain ⟨base, content, hbase, hfile⟩ := (isFile_iff ht hending hnames).mp h
  obtain ⟨hne, hparts, hname⟩ := hnames
  have hsteps := isStepwise_parts hending hne hparts
  have hpath := pathBelow_eq (l := l) hne hparts
  have hsegments : FileTree.segments ("/".intercalate parts) = parts := by
    have hnone := segments_parts hne hparts ""
    have hlast : parts.getLastD "" = parts.getLast hne := by
      rw [List.getLastD_eq_getLast?, List.getLast?_eq_some_getLast hne, Option.getD_some]
    rwa [String.append_empty, String.append_empty, hlast,
      segments_last (hparts _ (List.getLast_mem hne)), List.dropLast_append_getLast] at hnone
  refine ⟨content, base, l.pathBelow parts, hbase, hpath ▸ hsteps.segments_ne_nil, hfile,
    ?_, ?_, ?_⟩
  · rw [hpath, hsteps.intercalate_segments]
  · rw [hsegments]
    exact fun p hp => (hparts p hp).2.2.1
  · rw [hsegments, hname]

end Strays

/-- In a tree of directories and readable files, where all roots are there, a loader of files lists
sorted and once each exactly the names it finds a source by, and those of the strays below its
roots. -/
theorem listing_finds_or_strays (l : FileLoader) {t : FileTree} (ht : t.IsPlain)
    (hreads : l.Reads t) (hending : IsEnding l.extension)
    (hroots : ∀ root ∈ l.roots, t.isDirectory (FileTree.segments root) = true) :
    (l.names t).Pairwise (· < ·) ∧
      ∀ name, name ∈ l.names t ↔ (∃ found, l.find t name = .ok found) ∨
        ∃ root ∈ l.roots, ∃ stem e, l.Lists t root name stem e ∧ IsStray stem e := by
  refine ⟨sortedNames_sorted _, fun name => ?_⟩
  rw [mem_names_iff ht hroots, find_ok_iff ht hreads hending hroots]
  constructor
  · rintro ⟨root, hroot, stem, e, hlists⟩
    by_cases hstray : IsStray stem e
    · exact .inr ⟨root, hroot, stem, e, hlists, hstray⟩
    · obtain ⟨parts, hnames, hhas⟩ := hlists.has_of_not_stray ht hending hstray
      exact .inl ⟨parts, hnames, root, hroot, hhas⟩
  · rintro (⟨parts, hnames, root, hroot, hhas⟩ | ⟨root, hroot, stem, e, hlists, -⟩)
    · obtain ⟨content, hlists⟩ := Has.lists ht hending hnames hhas
      exact ⟨root, hroot, _, _, hlists⟩
    · exact ⟨root, hroot, stem, e, hlists⟩

/-- A directory of templates; one of its directories is called as a template would be. -/
def site : FileTree :=
  ⟨[(["views"], .directory), (["views", "home.html"], .file [104, 105]),
    (["views", "old.html"], .directory), (["views", "parts"], .directory),
    (["views", "parts", "nav.html"], .file [])]⟩

def siteLoader : FileLoader := ⟨["views"], ".html", "utf-8"⟩

theorem site_isPlain : site.IsPlain := by
  refine FileTree.isPlain_of_entries fun entry hentry => ?_
  have hname (s : String) (hs : s ∈ ["views", "home.html", "old.html", "parts", "nav.html"]) :
      IsName s := by
    revert s
    have hall : ∀ s ∈ ["views", "home.html", "old.html", "parts", "nav.html"],
        s ≠ "" ∧ s ≠ "." ∧ s ≠ ".." ∧ '/' ∉ s.toList ∧ Char.ofNat 0 ∉ s.toList ∧
          s.utf8ByteSize ≤ FileTree.longestName := by decide
    intro s hs
    obtain ⟨h₁, h₂, h₃, h₄, h₅, h₆⟩ := hall s hs
    exact ⟨h₁, h₂, h₃, h₄, h₅, h₆⟩
  have hfound : ∀ entry ∈ site.entries, site.found? entry.1 = some entry.2 ∧
      (∀ n < entry.1.length, site.found? (entry.1.take n) = some .directory) ∧
      ∀ s ∈ entry.1, s ∈ ["views", "home.html", "old.html", "parts", "nav.html"] := by
    decide
  obtain ⟨hsame, hinside, hnames⟩ := hfound entry hentry
  refine ⟨hsame, hinside, fun target hlink => ?_, fun s hs => hname s (hnames s hs)⟩
  simp only [site, List.mem_cons, List.not_mem_nil, or_false] at hentry
  rcases hentry with rfl | rfl | rfl | rfl | rfl <;> cases hlink

theorem site_reads : siteLoader.Reads site := by
  intro path content h
  rcases FileTree.mem_entries_of_found? h with ⟨-, hdirectory⟩ | hmem
  · cases hdirectory
  · simp only [site, List.mem_cons, List.not_mem_nil, or_false, Prod.mk.injEq] at hmem
    rcases hmem with ⟨-, h⟩ | ⟨-, h⟩ | ⟨-, h⟩ | ⟨-, h⟩ | ⟨-, h⟩
    · cases h
    · cases h
      exact ⟨"hi", by decide⟩
    · cases h
    · cases h
    · cases h
      exact ⟨"", by decide⟩

theorem site_root : ∀ root ∈ siteLoader.roots,
    site.isDirectory (FileTree.segments root) = true := by
  intro root hroot
  rw [List.mem_singleton.mp hroot]
  exact site_isPlain.isDirectory_of_found (by decide)

theorem siteLoader_ending : IsEnding siteLoader.extension :=
  isEnding_of_no_slash (by decide) (by decide)

theorem site_leadsTo : site.LeadsTo (FileTree.segments "views") ["views"] := by
  have hsegments : FileTree.segments "views" = ["views"] := by decide
  rw [hsegments]
  exact (site_isPlain.isResolved (by decide)).walks

theorem site_lists_old : siteLoader.Lists site "views" "old" "old" .directory :=
  ⟨["views"], ["old.html"], site_leadsTo, by decide, by decide, by decide,
    by decide, by decide⟩

theorem names_nav : Names "parts.nav" ["parts", "nav"] := by
  refine ⟨by decide, fun p hp => ?_, by decide⟩
  have hall : ∀ p ∈ ["parts", "nav"], p ≠ "" ∧ p ≠ "~" ∧ '.' ∉ p.toList ∧ '/' ∉ p.toList ∧
      '\\' ∉ p.toList := by decide
  exact hall p hp

theorem site_has_nav : siteLoader.Has site "views" ["parts", "nav"] :=
  (isFile_iff site_isPlain siteLoader_ending names_nav).mpr
    ⟨["views"], [], site_leadsTo, by decide⟩

theorem site_finds_or_strays :
    site.IsPlain ∧ siteLoader.Reads site ∧ IsEnding siteLoader.extension ∧
      (∀ root ∈ siteLoader.roots, site.isDirectory (FileTree.segments root) = true) ∧
      (siteLoader.names site).Pairwise (· < ·) ∧ "parts.nav" ∈ siteLoader.names site ∧
      "old" ∈ siteLoader.names site := by
  obtain ⟨hsorted, hlisted⟩ := listing_finds_or_strays siteLoader site_isPlain site_reads
    siteLoader_ending site_root
  have hfound := (find_ok_iff site_isPlain site_reads siteLoader_ending site_root).mpr
    ⟨_, names_nav, "views", List.mem_singleton_self _, site_has_nav⟩
  exact ⟨site_isPlain, site_reads, siteLoader_ending, site_root, hsorted,
    (hlisted "parts.nav").mpr (.inl hfound),
    (hlisted "old").mpr
      (.inr ⟨"views", List.mem_singleton_self _, "old", _, site_lists_old, .directory⟩)⟩

/-- A directory that is called as a template would be is listed, but no source is found by that
name. -/
theorem listed_directory_not_found :
    site.IsPlain ∧ siteLoader.Reads site ∧ IsEnding siteLoader.extension ∧
      (∀ root ∈ siteLoader.roots, site.isDirectory (FileTree.segments root) = true) ∧
      ¬ ("old" ∈ siteLoader.names site ↔ ∃ found, siteLoader.find site "old" = .ok found) := by
  refine ⟨site_isPlain, site_reads, siteLoader_ending, site_root, fun hiff => ?_⟩
  have hlisted := (mem_names_iff site_isPlain site_root).mpr
    ⟨"views", List.mem_singleton_self _, "old", _, site_lists_old⟩
  obtain ⟨parts, hnames, root, hroot, hhas⟩ :=
    (find_ok_iff site_isPlain site_reads siteLoader_ending site_root).mp (hiff.mp hlisted)
  obtain ⟨base, content, hbase, hfile⟩ :=
    (isFile_iff site_isPlain siteLoader_ending hnames).mp hhas
  have hparts : parts = ["old"] := by
    rw [← split_of_names hnames]
    decide
  rw [List.mem_singleton.mp hroot] at hbase
  rw [hbase.unique site_leadsTo, hparts] at hfile
  have hdirectory : site.found? (["views"] ++ siteLoader.pathBelow ["old"]) =
      some .directory := by decide
  rw [hdirectory] at hfile
  cases hfile

end FileLoader

end Stencil
