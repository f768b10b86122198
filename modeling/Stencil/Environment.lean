import Stencil.Render
import Stencil.Value.Datum

/-!
# Environments

An environment is set up from a loader, globals, a nesting limit and a mode, and can be given
more globals and shared data later. The builtin functions are globals unless others take their
names.
-/

namespace Stencil

inductive LoaderSpec
  | files (l : FileLoader)
  | table (templates : List (String × String))
  | choice (loaders : List LoaderSpec)
  | lookup (views : List (String × Datum))
  | callback (f : Datum)
  | shouting
  | custom (d : Datum)
deriving Repr, Inhabited

namespace LoaderSpec

mutual

def make : LoaderSpec → Action Loader
  | .files l => return .files { l with extension := FileLoader.normalExtension l.extension }
  | .table templates => return .table templates
  | .choice loaders => return .choice (← makeAll loaders)
  | .lookup views => return .lookup (← Action.evaluate (Datum.loadFields views))
  | .callback d => do
    let f ← Action.evaluate d.load
    if Loader.isCallable f then return .callback f
    else Action.fault (Loader.needsCallable f)
  | .shouting => return .shouting
  | .custom d => return .custom (← Action.evaluate d.load)

def makeAll : List LoaderSpec → Action (List Loader)
  | [] => return []
  | l :: ls => do
    let first ← make l
    return first :: (← makeAll ls)

end

end LoaderSpec

namespace Loader

def isUsable (h : Heap) : Loader → Bool
  | .custom v =>
    match Value.ownAttribute h v "get_source" with
    | .ok f => isCallable f
    | .error _ => false
  | _ => true

def putTemplate (name source : String) : Loader → Loader
  | .table templates => .table ((name, source) :: templates.filter (·.1 ≠ name))
  | l => l

end Loader

/-- What an environment is made from; a limit may be any value. -/
structure Setup where
  loader : Option LoaderSpec
  globals : List (String × Datum)
  limit : Option Datum
  lenient : Bool
  shared : List (String × Datum)
  files : FileTree
  host : Host

namespace Environment

def builtins : Bindings := Builtin.all.map fun b => (b.name, .builtin b)

def noSource (v : Loader) : Fault :=
  .type ("loader must provide get_source(name), got " ++ v.title)

def badLimit (shown : String) : Fault :=
  .value ("max_depth must be a positive integer, got " ++ shown)

def limitOf (d : Option Datum) : Action Int := do
  match d with
  | none => return Boundary.usualLimit
  | some (.int n) => if n ≥ 1 then return n else Action.fault (badLimit (toString n))
  | some d =>
    let v ← Action.evaluate d.load
    Action.fault (badLimit (← Action.ofExcept (v.written (← get).heap)))

def sharedNotice (names : List String) : Notice :=
  .log ("Shared view data: " ++ ", ".intercalate (FileLoader.sortedNames names))

def share (env : Environment) (more : Bindings) : Action Environment := do
  Action.notice (sharedNotice more.keys)
  return { env with shared := env.shared.update more }

def addGlobals (env : Environment) (more : Bindings) : Environment :=
  { env with globals := env.globals.update more }

def make (s : Setup) : Action Environment := do
  let loader ← match s.loader with
    | none | some (.custom .none) => pure none
    | some l => some <$> l.make
  let globals ← Action.evaluate (Datum.loadFields s.globals)
  if let some l := loader then
    if !l.isUsable (← get).heap then Action.fault (noSource l)
  let limit ← limitOf s.limit
  let env : Environment :=
    ⟨loader, builtins.update globals, [], limit, s.lenient, s.files, s.host⟩
  if s.shared.isEmpty then return env
  else env.share (← Action.evaluate (Datum.loadFields s.shared))

def compile (env : Environment) (source : String) (name : Option String) : Action Template :=
  env.compileSource ⟨source, name, none⟩

def templateNames (env : Environment) : List String :=
  match env.loader with
  | some l => (l.names? env.files).getD []
  | none => []

def globalNames (env : Environment) : List String := FileLoader.sortedNames env.globals.keys

def ownGlobalNames (env : Environment) : List String :=
  env.globalNames.filter fun n => !(Builtin.all.map (·.name)).contains n

def sharedEntries (env : Environment) : Bindings :=
  env.shared.mergeSort fun a b => decide (a.1 ≤ b.1)

def flagText (b : Bool) : String := if b then "True" else "False"

def text (env : Environment) : String :=
  "<Environment loader=" ++ ((env.loader.map Loader.title).getD "None") ++ " strict=" ++
    flagText (!env.lenient) ++ " max_depth=" ++ toString env.limit ++ ">"

end Environment

/-- The data of a render: a mapping or any value, and entries that go over it. -/
structure RenderArguments where
  data : Datum
  more : List (String × Datum)

/-- What is done to an environment and the templates made with it. -/
inductive Step
  | share (entries : List (String × Datum))
  | shareUnder (key : Datum)
  | sharedData
  | addGlobals (entries : List (String × Datum))
  | globalNames
  | assign
  | compile (slot source : String) (name : Option String)
  | load (slot name : String)
  | run (slot : String) (arguments : RenderArguments)
  | renderNamed (name : String) (arguments : RenderArguments)
  | renderText (source : String) (name : Option String) (arguments : RenderArguments)
  | getSource (name : String)
  | templateNames
  | loaderNames
  | loaderRoots
  | putTemplate (name source : String)
  | putFile (path : String) (content : List UInt8)
  | environmentText
  | sectionText (slot name : String)
  | setLenient (lenient : Bool)
  | isOutside
  | dropEnvironment

inductive Reply
  | done
  | text (s : String)
  | names (names : List String)
  | entries (entries : Bindings)
  | template (t : Template)
  | source (l : Loaded)
  | flag (b : Bool)

structure Session where
  env : Environment
  /-- Whether the environment still exists. -/
  alive : Bool
  slots : List (String × Template)

namespace Session

def start (env : Environment) : Session := ⟨env, true, []⟩

def gone (t : Template) : Fault :=
  .runtime ("Environment has been garbage collected (template: " ++
    ((nonEmpty t.name).getD "unknown") ++ ")")

def renderTemplate (s : Session) (t : Template) (a : RenderArguments) : Action Reply := do
  if !s.alive then Action.fault (gone t)
  let data ← Action.evaluate a.data.load
  let more ← Action.evaluate (Datum.loadFields a.more)
  return .text (← t.render s.env data more).text

def renderNamed (s : Session) (name : String) (a : RenderArguments) : Action Reply := do
  if !s.alive then Action.fault (gone (← s.env.load name))
  let data ← Action.evaluate a.data.load
  let more ← Action.evaluate (Datum.loadFields a.more)
  return .text (← s.env.render name data more).text

def keyFault (slot : String) : Fault := .key slot.quoted

def slot (s : Session) (name : String) : Action Template := do
  match s.slots.lookup name with
  | some t => return t
  | none => Action.fault (keyFault name)

def store (s : Session) (slot : String) (t : Template) : Session :=
  { s with slots := (slot, t) :: s.slots.filter (·.1 ≠ slot) }

def lacks (kind name : String) : Fault :=
  .missingAttribute ("'" ++ kind ++ "' object has no attribute '" ++ name ++ "'")

def loaderKind (s : Session) : String := (s.env.loader.map Loader.title).getD "NoneType"

def noItemAssignment : Fault := .type "'mappingproxy' object does not support item assignment"

def wrongKey (v : Value) : Fault :=
  .type ("share() expects a key or a mapping, got " ++ v.kindName)

def namedEntries (entries : Array (Value × Value)) : Bindings :=
  entries.toList.filterMap fun (k, v) =>
    match k with
    | .str name => some (name, v)
    | _ => none

def step (s : Session) : Step → Action (Session × Reply)
  | .share entries => do
    let env ← s.env.share (← Action.evaluate (Datum.loadFields entries))
    return ({ s with env }, .entries env.sharedEntries)
  | .shareUnder key => do
    match ← Action.evaluate key.load with
    | .dict r =>
      let env ← s.env.share (namedEntries ((← get).heap.dictEntries r))
      return ({ s with env }, .done)
    | .str name =>
      let env ← s.env.share [(name, .none)]
      return ({ s with env }, .done)
    | v => Action.fault (wrongKey v)
  | .sharedData => return (s, .entries s.env.sharedEntries)
  | .addGlobals entries => do
    let env := s.env.addGlobals (← Action.evaluate (Datum.loadFields entries))
    return ({ s with env }, .names env.ownGlobalNames)
  | .globalNames => return (s, .names s.env.globalNames)
  | .assign => Action.fault noItemAssignment
  | .compile slot source name => do
    let t ← s.env.compile source name
    return (s.store slot t, .template t)
  | .load slot name => do
    let t ← s.env.load name
    return (s.store slot t, .template t)
  | .run slot a => do return (s, ← s.renderTemplate (← s.slot slot) a)
  | .renderNamed name a => do return (s, ← s.renderNamed name a)
  | .renderText source name a => do
    return (s, ← s.renderTemplate (← s.env.compile source name) a)
  | .getSource name => do
    match s.env.loader with
    | some l => return (s, .source (← l.find Evaluator.standard 0 s.env.files name))
    | none => Action.fault (lacks "NoneType" "get_source")
  | .templateNames => return (s, .names s.env.templateNames)
  | .loaderNames => do
    match s.env.loader.bind fun l => l.names? s.env.files with
    | some names => return (s, .names names)
    | none => Action.fault (lacks s.loaderKind "list_templates")
  | .loaderRoots => do
    match s.env.loader with
    | some (.files l) => return (s, .names (l.roots.map FileLoader.shownRoot))
    | _ => Action.fault (lacks s.loaderKind "paths")
  | .putTemplate name source =>
    return ({ s with env.loader := s.env.loader.map (Loader.putTemplate name source) }, .done)
  | .putFile path content =>
    return ({ s with env.files := s.env.files.add (FileTree.segments path) (.file content) }, .done)
  | .environmentText => return (s, .text s.env.text)
  | .sectionText slot name => do return (s, .text ((← s.slot slot).sectionText name))
  | .setLenient lenient => return ({ s with env.lenient := lenient }, .done)
  | .isOutside => do return (s, .flag (← get).boundary.isNone)
  | .dropEnvironment => return ({ s with alive := false }, .done)

end Session

end Stencil
