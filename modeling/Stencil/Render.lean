import Stencil.Loader
import Stencil.Template
import Stencil.Text.Escape

/-!
# Rendering

A body renders to pieces, each of which is literal text of a template, the fallback of a place
that no section fills, or the text of a value, escaped or raw. Bodies meet other templates at
three places: a page hands its sections to the layout it extends, a layout yields to sections,
and any body includes partials. At each of them a boundary is entered.
-/

namespace Stencil

inductive Piece
  | literal (s : String)
  | fallback (s : String)
  | escaped (s : String)
  | raw (s : String)
deriving DecidableEq, Repr

namespace Piece

def text : Piece → String
  | literal s | fallback s | raw s => s
  | escaped s => Text.escape s

end Piece

abbrev Output := Array Piece

def Output.text (out : Output) : String := String.join (out.toList.map Piece.text)

/-- How the host gives up a source that asks too much of it. -/
inductive Breakdown
  | recursion (message : String)
  | memory (message : String)
  | system (message : String)
deriving DecidableEq, Repr

def Breakdown.fault : Breakdown → Fault
  | recursion message => .told .recursion message
  | memory message => .told .memory message
  | system message => .told .system message

/-- What the host that templates are compiled and rendered on has room for. -/
structure Host where
  /-- How many boundaries there may be inside of that of the page. -/
  nested : Nat
  /-- The calls under way where so many more boundaries may be entered. -/
  calls : Nat → Nat
  calls_le : ∀ {m n : Nat}, n ≤ m → calls m ≤ calls n
  /-- What the host does with a source that it cannot read or translate. -/
  breakdown? : Source → Option Breakdown

namespace Host

/-- How many boundaries a render may be inside of, that of its page included. -/
def room (host : Host) : Nat := host.nested + 1

/-- The calls under way where `n` more boundaries may be entered and each takes four of them. -/
def evenCalls (n : Nat) : Nat := Eval.deepestCall - 4 * n

theorem evenCalls_le {m n : Nat} (h : n ≤ m) : evenCalls m ≤ evenCalls n :=
  Nat.sub_le_sub_left (Nat.mul_le_mul_left 4 h) _

/-- A host that takes every boundary for four calls and never breaks down on a source. -/
def even : Host := ⟨Eval.deepestCall / 4, evenCalls, evenCalls_le, fun _ => none⟩

end Host

/-- What a render keeps to: where templates come from, the data every template starts with,
whether missing names are let pass, and the host. -/
structure Environment where
  loader : Option Loader
  globals : Bindings
  shared : Bindings
  limit : Int
  lenient : Bool
  files : FileTree
  host : Host

/-- A section with the template that defines it. -/
structure BoundSection where
  owner : Template
  index : Nat
  body : List Node

abbrev Sections := List (String × BoundSection)

namespace Sections

/-- Adds a section, given with its index, unless one of its name is defined already. -/
def put (t : Template) (s : Sections) (x : Section × Nat) : Sections :=
  if (s.lookup x.1.name).isSome then s else s ++ [(x.1.name, ⟨t, x.2, x.1.body⟩)]

def register (s : Sections) (t : Template) : Sections := t.tree.sections.zipIdx.foldl (put t) s

end Sections

namespace Environment

def noLoader (name : String) : TemplateError :=
  .notFound ("Template '" ++ name ++ "' not found: no loader configured") (some name)

def wrongFilename (v : Value) : Fault :=
  .type ("expected str, bytes or os.PathLike object, not " ++ v.kindName)

def compileSource (env : Environment) (s : Source) : Action Template :=
  match env.host.breakdown? s with
  | some b => Action.fault b.fault
  | none => Template.compile s env.lenient

def compileLoaded (env : Environment) (name : String) (l : Loaded) : Action Template := do
  let compile (filename : Option String) : Action Template :=
    env.compileSource ⟨l.source, some name, filename⟩
  match l.filename with
  | .str s => compile (some s)
  | v =>
    if Value.truth (← Action.heap) v then
      let _ ← compile none
      Action.fault (wrongFilename v)
    else compile none

/-- Loads and compiles a template while a number of calls are under way. -/
def loadUnder (env : Environment) (calls : Nat) (name : String) : Action Template := do
  match env.loader with
  | none => Action.reject (noLoader name)
  | some l => env.compileLoaded name (← l.find Evaluator.standard calls env.files name)

/-- Loads and compiles a template. -/
def load (env : Environment) (name : String) : Action Template := env.loadUnder 0 name

def baseData (env : Environment) : Bindings := env.globals.update env.shared

end Environment

namespace Render

/-- What surrounds a body: who evaluates its expressions, the calls under way, and how it
reaches other templates. -/
structure Reach where
  ev : Evaluator
  calls : Nat
  /-- The section of a name, or its fallback. -/
  yielding : String → String → Action Output
  /-- A partial with the data given to it. -/
  including : String → Value → Action Output

variable (reach : Reach)

def Reach.evaluate {α : Type} (e : Eval α) : Action α := Action.evaluateUnder reach.calls e

def evalCode (scope : Scope) (code : Code) : Action Value :=
  reach.evaluate (reach.ev.eval scope code.expr)

def textOf (v : Value) : Action String := do
  Action.ofExcept (v.outputText (← Action.heap))

def test (scope : Scope) (code : Code) : Action Bool := do
  let v ← evalCode reach scope code
  return Value.truth (← Action.heap) v

def sourceValue : Value → Value
  | .none | .undefined => .tuple []
  | v => v

def parentLoop (scope : Scope) : Eval (Option Ref) := do
  match scope.loops.find? (·.counted) with
  | none => return none
  | some l =>
    match (← Eval.frame scope.frame).get? (.ofLoop l.position "loop") with
    | some (.loop r) => return some r
    | _ => return none

/-- The list a counted loop runs over: a list itself, or the items of anything else. -/
def materializedBy (ev : Evaluator) (v : Value) : Eval Ref := do
  match v with
  | .list r => return r
  | v => do Eval.allocate (.list (← ev.collect v))

def materialized (v : Value) : Eval Ref := materializedBy Evaluator.standard v

/-- The iterator of a loop; a counted one is bound to its name first. -/
def startLoop (ev : Evaluator) (scope : Scope) (l : LoopScope) (counts : Bool) (v : Value) :
    Eval Value := do
  if counts then
    let items ← materializedBy ev v
    let loop ← Eval.newLoop items (← parentLoop scope)
    if l.counted then Eval.bind scope.frame (.ofLoop l.position "loop") (.loop loop)
    (Value.loop loop).toIterator
  else v.toIterator

def bindTarget (ev : Evaluator) (scope : Scope) (l : LoopScope) (target : Expr) (v : Value) :
    Eval Unit :=
  ev.assign scope
    (fun id w => Eval.bind scope.frame (.ofLoop l.position id) w) target v

def eachItem (it : Value) (body : Value → Action Output) : Nat → Output → Action Output
  | 0, _ => throw .outOfSteps
  | fuel + 1, out => do
    match ← reach.evaluate (reach.ev.next it) with
    | none => return out
    | some v => eachItem it body fuel (out ++ (← body v))

def whileTrue (again : Action Bool) (body : Action Output) : Nat → Output → Action Output
  | 0, _ => throw .outOfSteps
  | fuel + 1, out => do
    if ← again then whileTrue again body fuel (out ++ (← body)) else return out

mutual

def node (scope : Scope) : Node → Action Output
  | .data _ text => return #[.literal text]
  | .output p code escaped => do
    Action.markLine p.line
    let s ← textOf (← evalCode reach scope code)
    return #[if escaped then .escaped s else .raw s]
  | .yielding p name default => do
    Action.markLine p.line
    reach.yielding name default
  | .including p name data => do
    Action.markLine p.line
    let v ← match data with
      | some code => evalCode reach scope code
      | none => reach.evaluate (Eval.newDict #[])
    reach.including name v
  | .conditional p t body others otherwise => do
    Action.markLine p.line
    if ← test reach scope t then nodes scope #[] body
    else branches scope (nodes scope #[] otherwise) others
  | .loop p _ target source body => do
    Action.markLine p.line
    let v ← evalCode reach scope source
    let counts := Node.mention "loop" body
    let names := target.expr.storedNames
    let l : LoopScope := ⟨p, names, counts && !names.contains "loop"⟩
    let it ← reach.evaluate (startLoop reach.ev scope l counts (sourceValue v))
    let inner := { scope with loops := l :: scope.loops }
    eachItem reach it
      (fun v => do
        reach.evaluate (bindTarget reach.ev scope l target.expr v)
        nodes inner #[] body)
      Evaluator.mostItems #[]
  | .whileLoop p t body => do
    Action.markLine p.line
    whileTrue (test reach scope t)
      (do
        let out ← nodes scope #[] body
        Action.markLine p.line
        return out)
      Evaluator.mostItems #[]

/-- The nodes behind those that rendered to `out`. -/
def nodes (scope : Scope) (out : Output) : List Node → Action Output
  | [] => return out
  | n :: ns => do nodes scope (out ++ (← node scope n)) ns

/-- The first branch whose test holds; each test is marked with its own line. -/
def branches (scope : Scope) (otherwise : Action Output) : List (Code × List Node) → Action Output
  | [] => otherwise
  | b :: bs => do
    match ← branch scope b with
    | some out => return out
    | none => branches scope otherwise bs

def branch (scope : Scope) : Code × List Node → Action (Option Output)
  | (t, body) => do
    Action.markLine t.position.line
    if ← test reach scope t then return some (← nodes scope #[] body) else return none

end

/-- A body with variables of its own. -/
def body (t : Template) (path : String) (data : Ref) (ns : List Node) : Action Output := do
  let frame ← reach.evaluate (Eval.newFrame [])
  nodes reach ⟨data, t.lenient, frame, [], [], path⟩ #[] ns

/-- What a boundary is entered for. -/
inductive Part
  | whole (t : Template)
  | sectionBody (s : BoundSection)

def noMapping (name : String) (v : Value) : Fault :=
  .type ("@include data for '" ++ name ++ "' must be a mapping, got " ++ v.kindName)

/-- Entries of a mapping put over bindings; keys that are no text are kept apart. -/
def dataWith (base : Bindings) (entries : Array (Value × Value)) : RenderData :=
  entries.foldl
    (fun d (k, v) =>
      match k with
      | .str name => { d with names := d.names.put name v }
      | k => { d with otherKeys := d.otherKeys ++ [k] })
    ⟨base, []⟩

variable (env : Environment)

/-- A partial is rendered with the data every template starts with and the entries of a dict. -/
def includeFrom (here : Boundary) (calls : Nat) (again : Part → Ref → Sections → Action Output)
    (name : String) (r : Ref) : Action Output := do
  Action.orReject (here.checkDepth name)
  let t ← env.loadUnder calls name
  let entries := (← Action.heap).dictEntries r
  let data ← Action.evaluateUnder calls (Eval.newData (dataWith env.baseData entries))
  Action.within (here.child name t.filename (some t.source.text) false)
    (again (.whole t) data [])

def includePartial (calls : Nat) (again : Part → Ref → Sections → Action Output) (name : String)
    (v : Value) : Action Output := do
  match v with
  | .dict r => includeFrom env (← Action.here) calls again name r
  | v => Action.fault (noMapping name v)

/-- A page goes on with its layout, to which it hands the sections. -/
def extendFrom (here : Boundary) (calls : Nat) (again : Part → Ref → Sections → Action Output)
    (name : String) (data : Ref) (sections : Sections) : Action Output := do
  Action.orReject (here.checkCycle name)
  Action.orReject (here.checkDepth name)
  let t ← env.loadUnder calls name
  Action.within (here.child name t.filename (some t.source.text) true)
    (again (.whole t) data sections)

def extend (calls : Nat) (again : Part → Ref → Sections → Action Output) (name : String)
    (data : Ref) (sections : Sections) : Action Output := do
  extendFrom env (← Action.here) calls again name data sections

/-- A place in a layout is filled by the section of its name. -/
def yieldTo (again : Part → Ref → Sections → Action Output) (data : Ref) (sections : Sections)
    (name fallback : String) : Action Output := do
  match sections.lookup name with
  | none => return #[.fallback fallback]
  | some s =>
    let here ← Action.here
    Action.within (here.ofSection s.owner.name s.owner.filename (some s.owner.source.text))
      (again (.sectionBody s) data sections)

variable (ev : Evaluator)

/-- What surrounds a body with sections and data where other parts are reached by `again`. -/
def around (calls : Nat) (again : Part → Ref → Sections → Action Output) (data : Ref)
    (sections : Sections) : Reach :=
  ⟨ev, calls, yieldTo again data sections, includePartial env calls again⟩

/-- A part of a render that may be inside of `n` boundaries, its own included; the host allows for
no more. -/
def part : Nat → Part → Ref → Sections → Action Output
  | 0, _, _, _ => Action.fault .tooRecursive
  | n + 1, .sectionBody s, data, sections =>
    body (around env ev (env.host.calls n) (part n) data sections) s.owner
      ("_section_" ++ toString s.index) data s.body
  | n + 1, .whole t, data, sections =>
    match t.tree with
    | .page ns => body (around env ev (env.host.calls n) (part n) data sections) t "render" data ns
    | .extension position layout _ => do
      Action.markLine position.line
      extend env (env.host.calls n) (part n) layout data (sections.register t)

theorem part_page (n : Nat) {t : Template} {ns : List Node} (ht : t.tree = .page ns) (data : Ref)
    (sections : Sections) :
    part env ev (n + 1) (.whole t) data sections =
      body (around env ev (env.host.calls n) (part env ev n) data sections) t "render" data ns := by
  rw [part, ht]

theorem part_extension (n : Nat) {t : Template} {position : Text.Position} {layout : String}
    {own : List Section} (ht : t.tree = .extension position layout own) (data : Ref)
    (sections : Sections) :
    part env ev (n + 1) (.whole t) data sections = (do
      Action.markLine position.line
      extend env (env.host.calls n) (part env ev n) layout data (sections.register t)) := by
  rw [part, ht]

end Render

namespace Template

open Render

def notMapping (v : Value) : Fault :=
  .type ("render() data must be a mapping, got " ++ v.kindName)

/-- The data of a render: what every template starts with, then `data`, then `more`. -/
def renderData (env : Environment) (data : Value) (more : Bindings) : Action RenderData := do
  let given ← match data with
    | .none => pure #[]
    | .dict r => pure ((← Action.heap).dictEntries r)
    | v => Action.fault (notMapping v)
  let d := dataWith env.baseData given
  return { d with names := d.names.update more }

/-- Renders a template in an environment; expressions are evaluated by `ev`. -/
def renderBy (ev : Evaluator) (t : Template) (env : Environment) (data : Value)
    (more : Bindings) : Action Output := do
  let d ← renderData env data more
  let r ← Action.evaluate (Eval.newData d)
  Action.within (.page t.name t.filename (some t.source.text) env.limit)
    (part env ev env.host.room (.whole t) r [])

def render (t : Template) (env : Environment) (data : Value) (more : Bindings) : Action Output :=
  t.renderBy Evaluator.standard env data more

end Template

namespace Environment

/-- Loads, compiles and renders a template. -/
def renderBy (ev : Evaluator) (env : Environment) (name : String) (data : Value)
    (more : Bindings) : Action Output := do
  (← env.load name).renderBy ev env data more

def render (env : Environment) (name : String) (data : Value) (more : Bindings) : Action Output :=
  env.renderBy Evaluator.standard name data more

end Environment

end Stencil
