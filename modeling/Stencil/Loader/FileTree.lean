import Stencil.Fault
import Stencil.Text.Quoted
import Stencil.Text.Search

/-!
# File trees

Files, directories and symbolic links below one directory, named by the segments of their
paths. Links point to places of the same tree. Resolving a path follows links and steps up at
`..`; what does not exist is kept as it is.
-/

namespace Stencil

inductive FileEntry
  | file (content : List UInt8)
  | directory
  | link (target : List String)
deriving DecidableEq, Repr

structure FileTree where
  entries : List (List String × FileEntry)
deriving Repr

namespace FileTree

def empty : FileTree := ⟨[]⟩

/-- The segments of a path; empty ones and single dots mean nothing. -/
def segments (path : String) : List String :=
  ((Text.splitOn ['/'] none path.toList).map String.ofList).filter fun s => s ≠ "" && s ≠ "."

def found? (t : FileTree) (path : List String) : Option FileEntry :=
  if path.isEmpty then some .directory else t.entries.lookup path

def put (t : FileTree) (path : List String) (e : FileEntry) : FileTree :=
  ⟨(path, e) :: t.entries.filter (·.1 ≠ path)⟩

def addDirectory (t : FileTree) (path : List String) : FileTree :=
  (List.range path.length).foldl
    (fun t i =>
      let parent := path.take (i + 1)
      if (t.found? parent).isSome then t else t.put parent .directory)
    t

def add (t : FileTree) (path : List String) (e : FileEntry) : FileTree :=
  (t.addDirectory path.dropLast).put path e

/-- Where a path leads, or where it runs in a circle. -/
inductive Resolved
  | reached (path : List String)
  | circle (path : List String)
deriving DecidableEq, Repr

def unfollowed (following : List (List String)) : List String × FileEntry → Nat
  | (path, .link target) => if following.contains path then 0 else target.length + 1
  | _ => 0

theorem unfollowed_cons_le (path : List String) (following : List (List String))
    (entry : List String × FileEntry) :
    unfollowed (path :: following) entry ≤ unfollowed following entry := by
  obtain ⟨place, e⟩ := entry
  cases e with
  | link target =>
    by_cases hplace : following.contains place
    · simp_all [unfollowed]
    · simp only [unfollowed, hplace, Bool.false_eq_true, if_false]
      split
      · exact Nat.zero_le _
      · exact Nat.le_refl _
  | _ => exact Nat.le_refl _

def toFollow (t : FileTree) (following : List (List String)) : Nat :=
  t.entries.foldr (fun entry more => unfollowed following entry + more) 0

/-- A link that is being followed adds its target no more. -/
theorem toFollow_cons {t : FileTree} {following : List (List String)} {path target : List String}
    (hlink : t.found? path = some (.link target)) (hnew : ¬ following.contains path) :
    t.toFollow (path :: following) + target.length < t.toFollow following := by
  have hlookup : t.entries.lookup path = some (.link target) := by
    unfold found? at hlink
    split at hlink
    · cases hlink
    · exact hlink
  have hless (entries : List (List String × FileEntry)) :
      entries.foldr (fun entry more => unfollowed (path :: following) entry + more) 0 ≤
        entries.foldr (fun entry more => unfollowed following entry + more) 0 := by
    induction entries with
    | nil => exact Nat.le_refl _
    | cons entry entries ih =>
      have hentry := unfollowed_cons_le path following entry
      simp only [List.foldr_cons]
      omega
  unfold toFollow
  generalize t.entries = entries at hlookup
  induction entries with
  | nil => cases hlookup
  | cons entry entries ih =>
    obtain ⟨place, e⟩ := entry
    simp only [List.foldr_cons]
    by_cases hplace : path = place
    · subst hplace
      have he : e = .link target := by simpa [List.lookup_cons] using hlookup
      have hrest := hless entries
      have hagain : unfollowed (path :: following) (path, .link target) = 0 := by
        simp [unfollowed]
      have honce : unfollowed following (path, .link target) = target.length + 1 := if_neg hnew
      rw [he, hagain, honce]
      omega
    · have hother : entries.lookup path = some (.link target) := by
        rwa [List.lookup_cons, beq_eq_false_iff_ne.mpr hplace] at hlookup
      have hentry := unfollowed_cons_le path following (place, e)
      have hrest := ih hother
      omega

/-- Follows `rest` from the resolved directory `base`; `following` are the links being followed. -/
def resolveFrom (t : FileTree) (following : List (List String)) (base : List String) :
    List String → Resolved
  | [] => .reached base
  | ".." :: rest => resolveFrom t following base.dropLast rest
  | s :: rest =>
    match hfound : t.found? (base ++ [s]) with
    | some (.link target) =>
      if hagain : following.contains (base ++ [s]) then .circle (base ++ s :: rest)
      else
        have := toFollow_cons hfound hagain
        match resolveFrom t ((base ++ [s]) :: following) [] target with
        | .circle p => .circle (p ++ rest)
        | .reached p => resolveFrom t following p rest
    | _ => resolveFrom t following (base ++ [s]) rest
termination_by rest => rest.length + t.toFollow following
decreasing_by all_goals simp only [List.length_cons]; omega

def resolve (t : FileTree) (path : List String) : Resolved := t.resolveFrom [] [] path

def target? (t : FileTree) (path : List String) : Option FileEntry :=
  match t.resolve path with
  | .reached p => t.found? p
  | .circle _ => none

/-- Whether a path can be walked and ends at a directory: every step of it has to be one. -/
def isDirectory (t : FileTree) (path : List String) : Bool :=
  (List.range (path.length + 1)).all fun n => t.target? (path.take n) = some .directory

/-- Whether a path leads down from a directory through nothing but directories. -/
def leadsDown (t : FileTree) (directory path : List String) : Bool :=
  directory.isPrefixOf path && (List.range path.length).all fun n =>
    n ≤ directory.length || t.found? (path.take n) = some .directory

/-- Everything below a directory, as paths from it; linked directories are not entered. -/
def below (t : FileTree) (directory : List String) : List (List String) :=
  t.entries.filterMap fun (path, _) =>
    if directory.length < path.length && t.leadsDown directory path then
      some (path.drop directory.length)
    else none

def longestName : Nat := 255

/-- How an absolute path in the tree is written. -/
def shown (path : List String) : String := "/".intercalate ("<root>" :: path)

def nameTooLong (path : List String) : Fault :=
  .told .file ("[Errno 36] File name too long: " ++ (shown path).quoted)

def circleFault (path : List String) : Fault :=
  .runtime ("Symlink loop from " ++ (shown path).quoted)

def checkNames (path : List String) : Except Fault Unit :=
  if path.any fun s => s.toList.contains (Char.ofNat 0) then
    .error (.value "embedded null byte")
  else .ok ()

/-- A name that is too long is noticed once the directory it should be in is reached. -/
def checkLengths (t : FileTree) (path : List String) : Except Fault Unit :=
  match path.findIdx? fun s => s.utf8ByteSize > longestName with
  | some i => if t.isDirectory (path.take i) then .error (nameTooLong path) else .ok ()
  | none => .ok ()

end FileTree

end Stencil
