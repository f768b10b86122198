import Stencil.Decoding
import Stencil.Loader.FileTree
import Stencil.World

/-!
# Loaders

A loader finds the source of a template by its name: below directories, in a table, through a
function, or in the first of several loaders that has it. Those that can also list what they
have.
-/

namespace Stencil

structure FileLoader where
  roots : List String
  extension : String
  encoding : String
deriving Repr

inductive Loader
  | files (l : FileLoader)
  | table (templates : List (String × String))
  | choice (loaders : List Loader)
  /-- A function that answers from a table. -/
  | lookup (views : Bindings)
  | callback (f : Value)
  /-- Answers every name with a template that shows it in capitals. -/
  | shouting
  /-- A value that is asked for its own way to get a source. -/
  | custom (v : Value)
deriving Repr

/-- A source with the value that stands for its file name. -/
structure Loaded where
  source : String
  filename : Value

namespace FileLoader

def usualExtension : String := ".html"

def usualEncoding : String := "utf-8"

def shownRoot (root : String) : String :=
  let absolute := root.startsWith "/"
  let path := "/".intercalate (FileTree.segments root)
  if absolute then "/" ++ path else if path.isEmpty then "." else path

variable (l : FileLoader)

/-- The path below a root that a name stands for; names that could leave the root have none. -/
def relativePath? (name : String) : Option (List String) :=
  let parts := (Text.splitOn ['.'] none name.toList).map String.ofList
  let fine (p : String) : Bool :=
    p ≠ "" && p ≠ "~" && !p.toList.contains '/' && !p.toList.contains '\\'
  if parts.all fine then
    some (parts.dropLast ++ FileTree.segments (parts.getLastD "" ++ l.extension))
  else none

def normalExtension (e : String) : String := if e.isEmpty || e.startsWith "." then e else "." ++ e

def notFound (name : String) : TemplateError :=
  .notFound ("Template '" ++ name ++ "' not found in: " ++ ", ".intercalate (l.roots.map shownRoot))
    (some name)

def resolved (t : FileTree) (path : List String) : Except Fault (List String) := do
  FileTree.checkNames path
  match t.resolve path with
  | .reached p => return p
  | .circle p => throw (FileTree.circleFault p)

/-- The file under one root, if it is there and inside the root. -/
def under (t : FileTree) (root : String) (path : List String) : Except Fault (Option Loaded) := do
  let base ← resolved t (FileTree.segments root)
  let full ← resolved t (base ++ path)
  if !base.isPrefixOf full then return none
  t.checkLengths full
  match t.found? full with
  | some (.file bytes) =>
    return some ⟨← Decoding.fileText l.encoding bytes, .str (FileTree.shown full)⟩
  | _ => return none

def findUnder (t : FileTree) (path : List String) : List String → Except Fault (Option Loaded)
  | [] => .ok none
  | root :: roots => do
    match ← l.under t root path with
    | some found => return some found
    | none => findUnder t path roots

def find (t : FileTree) (name : String) : Except Failure Loaded :=
  match l.relativePath? name with
  | none => .error (.template (l.notFound name))
  | some path =>
    match l.findUnder t path l.roots with
    | .ok (some found) => .ok found
    | .ok none => .error (.template (l.notFound name))
    | .error f => .error (.fault f)

/-- The name of what lies at a path below a root, if a template there could have one. -/
def nameAt? (path : List String) : Option String :=
  let text := "/".intercalate path
  let ends := l.extension.toList.isSuffixOf text.toList
  let stem := String.ofList (text.toList.take (text.length - l.extension.length))
  let parts := FileTree.segments stem
  if ends && parts.all fun p => !p.toList.contains '.' then some (".".intercalate parts) else none

def sortedNames (names : List String) : List String :=
  (names.mergeSort fun a b => decide (a ≤ b)).eraseDups

def names (t : FileTree) : List String :=
  sortedNames <| l.roots.flatMap fun root =>
    let path := FileTree.segments root
    match t.isDirectory path, t.resolve path with
    | true, .reached base => (t.below base).filterMap l.nameAt?
    | _, _ => []

end FileLoader

namespace Loader

def title : Loader → String
  | files _ => "FileSystemLoader"
  | table _ => "DictLoader"
  | choice _ => "ChoiceLoader"
  | lookup _ | callback _ => "FunctionLoader"
  | shouting => "UpperLoader"
  | custom v => v.kindName

def mostOffered : Nat := 10

def missingFromTable (templates : List (String × String)) (name : String) : TemplateError :=
  let available := FileLoader.sortedNames (templates.map (·.1))
  let offered :=
    match Text.Closest.closest? name available with
    | some guess => ". Did you mean '" ++ guess ++ "'?"
    | none =>
      if available.isEmpty then ""
      else
        ". Available: " ++ ", ".intercalate (available.take mostOffered) ++
          if available.length > mostOffered then
            " ... (" ++ toString available.length ++ " total)"
          else ""
  .notFound ("Template '" ++ name ++ "' not found" ++ offered) (some name)

def missingView (name : String) : TemplateError :=
  .notFound ("View '" ++ name ++ "' not found") (some name)

def ofAnswer (name : String) : Value → Except Failure Loaded
  | .none => .error (.template (missingView name))
  | .str s => .ok ⟨s, .str "<function>"⟩
  | .tuple [.str s, filename] => .ok ⟨s, filename⟩
  | v =>
    .error (.fault (.type ("Loader function returned " ++ v.kindName ++ " for '" ++ name ++
      "'; expected str, (source, filename) or None")))

def isCallable : Value → Bool
  | .builtin _ | .host _ | .method .. | .unboundMethod .. | .function _ | .undefined => true
  | _ => false

def needsCallable (v : Value) : Fault :=
  .type ("FunctionLoader needs a callable, got " ++ v.kindName)

def missingEverywhere (name : String) (count : Nat) (misses : List String) : TemplateError :=
  .notFound ("View '" ++ name ++ "' not found in " ++ toString count ++ " loader(s)" ++
    String.join (misses.map fun m => "\n  - " ++ m)) (some name)

def firstLineOf (e : TemplateError) : String :=
  String.ofList (Text.firstLine (e.message false).toList)

def ofFailure {α : Type} : Except Failure α → Action α
  | .ok a => pure a
  | .error f => throw (.failed f)

def fromObject (ev : Evaluator) (v : Value) (name : String) : Eval Loaded := do
  let f ← Eval.ofExcept (Value.ownAttribute (← get) v "get_source")
  let answer ← ev.call f [.str name] []
  match ← ev.unpackExactly answer 2 with
  | [.str source, filename] => return ⟨source, filename⟩
  | _ => Eval.typeFault "expected string or bytes-like object"

variable (ev : Evaluator) (calls : Nat) (tree : FileTree)

mutual

/-- The source of a template. -/
def find (name : String) : Loader → Action Loaded
  | .files l => ofFailure (l.find tree name)
  | .table templates =>
    match templates.lookup name with
    | some source => return ⟨source, .none⟩
    | none => Action.reject (missingFromTable templates name)
  | .choice loaders => findFirst name loaders.length [] loaders
  | .lookup views => ofFailure (ofAnswer name ((views.get? name).getD .none))
  | .callback f => do
    let answer ← Action.evaluateUnder calls (ev.call f [.str name] [])
    ofFailure (ofAnswer name answer)
  | .shouting =>
    return ⟨String.ofList (Text.upper name.toList) ++ " \x7b\x7b x \x7d\x7d", .none⟩
  | .custom v => Action.evaluateUnder calls (fromObject ev v name)

/-- The source from the first loader that has it; the others say what they miss. -/
def findFirst (name : String) (count : Nat) (misses : List String) : List Loader → Action Loaded
  | [] => Action.reject (missingEverywhere name count misses)
  | l :: ls =>
    tryCatch (find name l) fun
      | .failed (.template (.notFound m n)) =>
        findFirst name count
          (misses ++ [l.title ++ ": " ++ firstLineOf (.notFound m n)]) ls
      | stop => throw stop

end

mutual

/-- The names of the templates a loader knows, if it can tell. -/
def names? : Loader → Option (List String)
  | .files l => some (l.names tree)
  | .table templates => some (FileLoader.sortedNames (templates.map (·.1)))
  | .choice loaders => some (FileLoader.sortedNames (namesOfAll loaders))
  | .lookup _ | .callback _ => some []
  | .shouting | .custom _ => none

def namesOfAll : List Loader → List String
  | [] => []
  | l :: ls => (names? l).getD [] ++ namesOfAll ls

end

end Loader

end Stencil
