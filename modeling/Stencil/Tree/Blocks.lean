import Stencil.Tree.Arguments
import Stencil.Token.List

/-!
# Block structure

Tokens are read one after the other against a stack of open blocks, innermost first. Each open
block holds the nodes finished inside it; a closing directive turns it into one node of the
block around it. A directive that the innermost block does not allow is refused on the spot.
-/

namespace Stencil

open Text (Position)

namespace Tree

/-- What a block has read before the branch or body that is being read. -/
inductive Opening
  | sectionOf (name : String)
  | firstBranch (test : Code)
  | laterBranch (test : Code) (body : List Node) (others : List (Code × List Node)) (current : Code)
  | lastBranch (test : Code) (body : List Node) (others : List (Code × List Node))
  | loopOver (keyword : LoopKeyword) (target source : Code)
  | loopWhile (test : Code)
deriving Repr

def Opening.block : Opening → Block
  | sectionOf _ => .sectionBlock
  | firstBranch _ | laterBranch .. | lastBranch .. => .ifBlock
  | loopOver k _ _ => k.block
  | loopWhile _ => .whileBlock

/-- An open block with the finished nodes of its current body, last first. -/
structure Frame where
  position : Position
  opening : Opening
  done : List Node
deriving Repr

def Frame.openBlock (f : Frame) : OpenBlock := ⟨f.opening.block, f.position.line⟩

inductive Item
  | node (n : Node)
  | section (s : Section)
deriving Repr

structure Layout where
  position : Position
  name : String
deriving DecidableEq, Repr

structure Reading where
  layout : Option Layout
  frames : List Frame
  /-- Finished top-level content, last first. -/
  items : List Item
deriving Repr

namespace Reading

def empty : Reading := ⟨none, [], []⟩

def innermost (r : Reading) : Option OpenBlock := r.frames.head?.map Frame.openBlock

def push (r : Reading) (n : Node) : Reading :=
  match r.frames with
  | [] => { r with items := .node n :: r.items }
  | f :: fs => { r with frames := { f with done := n :: f.done } :: fs }

def enter (r : Reading) (position : Position) (opening : Opening) : Reading :=
  { r with frames := ⟨position, opening, []⟩ :: r.frames }

def close (r : Reading) (f : Frame) (rest : List Frame) : Reading :=
  let r := { r with frames := rest }
  let body := f.done.reverse
  match f.opening with
  | .sectionOf name => { r with items := .section ⟨f.position, name, body⟩ :: r.items }
  | .firstBranch test => r.push (.conditional f.position test body [] [])
  | .laterBranch test first others current =>
    r.push (.conditional f.position test first (others ++ [(current, body)]) [])
  | .lastBranch test first others => r.push (.conditional f.position test first others body)
  | .loopOver k target source => r.push (.loop f.position k target source body)
  | .loopWhile test => r.push (.whileLoop f.position test body)

def unexpected (r : Reading) (k : Keyword) (p : Position) : Except Rejection Reading :=
  .error (.problem (.unexpected k r.innermost) p)

/-- A branch `@elseif` of the innermost conditional. -/
def branch (r : Reading) (w : Written) : Except Rejection Reading :=
  match r.frames with
  | f :: fs =>
    let body := f.done.reverse
    match f.opening with
    | .firstBranch test => do
      let next ← w.expression
      return { r with frames := ⟨f.position, .laterBranch test body [] next, []⟩ :: fs }
    | .laterBranch test first others current => do
      let next ← w.expression
      let others := others ++ [(current, body)]
      return { r with frames := ⟨f.position, .laterBranch test first others next, []⟩ :: fs }
    | _ => r.unexpected .elseIf w.position
  | [] => r.unexpected .elseIf w.position

def lastBranch (r : Reading) (p : Position) : Except Rejection Reading :=
  match r.frames with
  | f :: fs =>
    let body := f.done.reverse
    match f.opening with
    | .firstBranch test =>
      .ok { r with frames := ⟨f.position, .lastBranch test body [], []⟩ :: fs }
    | .laterBranch test first others current =>
      let others := others ++ [(current, body)]
      .ok { r with frames := ⟨f.position, .lastBranch test first others, []⟩ :: fs }
    | _ => r.unexpected .otherwise p
  | [] => r.unexpected .otherwise p

def closing (r : Reading) (b : Block) (p : Position) : Except Rejection Reading :=
  match r.frames with
  | f :: fs => if f.opening.block = b then .ok (r.close f fs) else r.unexpected (.closing b) p
  | [] => r.unexpected (.closing b) p

def opening (r : Reading) (b : Block) (w : Written) : Except Rejection Reading :=
  match b with
  | .ifBlock => do return r.enter w.position (.firstBranch (← w.expression))
  | .whileBlock => do return r.enter w.position (.loopWhile (← w.expression))
  | .foreachBlock => do
    let (target, source) ← w.loopHeader
    return r.enter w.position (.loopOver .foreach target source)
  | .forBlock => do
    let (target, source) ← w.loopHeader
    return r.enter w.position (.loopOver .for target source)
  | .sectionBlock =>
    match r.innermost with
    | some b => .error (.problem (.nestedSection b) w.position)
    | none => do
      let arguments ← w.argumentList 1 2
      let name ← w.literal "Section name" (arguments.headD default)
      match arguments.drop 1 with
      | value :: _ =>
        let body := [Node.output w.position value true]
        return { r with items := .section ⟨w.position, name, body⟩ :: r.items }
      | [] => return r.enter w.position (.sectionOf name)

def layoutDirective (r : Reading) (w : Written) : Except Rejection Reading :=
  match r.innermost, r.layout with
  | some b, _ => .error (.problem (.nestedLayout b) w.position)
  | none, some l => .error (.problem (.secondLayout l.name l.position.line) w.position)
  | none, none => do
    let arguments ← w.argumentList 1 1
    let name ← w.literal "Layout name" (arguments.headD default)
    return { r with layout := some ⟨w.position, name⟩ }

def directive (r : Reading) (k : Keyword) (w : Written) : Except Rejection Reading :=
  match k with
  | .opening b => r.opening b w
  | .closing b => r.closing b w.position
  | .elseIf => r.branch w
  | .otherwise => r.lastBranch w.position
  | .layout => r.layoutDirective w
  | .yielding => do
    let (name, default) ← w.place
    return r.push (.yielding w.position name default)
  | .including => do
    let arguments ← w.argumentList 1 2
    let name ← w.literal "Template name" (arguments.headD default)
    return r.push (.including w.position name (arguments.drop 1).head?)

/-- The end of the source: no block may be open. -/
def finish (r : Reading) : Except Rejection Reading :=
  match r.frames with
  | [] => .ok r
  | f :: _ => .error (.problem (.unclosed f.openBlock) f.position)

def step (r : Reading) (t : Token) : Except Rejection Reading :=
  match t.kind with
  | .data text => .ok (r.push (.data t.position text))
  | .output text => do
    return r.push (.output t.position (← Written.expression ⟨t.position, none, text⟩) true)
  | .rawOutput text => do
    return r.push (.output t.position (← Written.expression ⟨t.position, none, text⟩) false)
  | .directive k arguments => r.directive k ⟨t.position, some k, arguments.getD ""⟩
  | .finish => r.finish

end Reading

/-- A section put in place of an earlier one of its name, or behind all of them. -/
def define (s : Section) : List Section → List Section
  | [] => [s]
  | t :: ts => if t.name = s.name then s :: ts else t :: define s ts

def defineItem (sections : List Section) : Item → List Section
  | .section s => define s sections
  | .node _ => sections

def sectionsOf (items : List Item) : List Section := items.foldl defineItem []

/-- Top-level content that an extending template drops without a sound. -/
def isSilent : Item → Bool
  | .section _ => true
  | .node (.data _ text) => text.isBlankText
  | .node _ => false

def Item.position : Item → Position
  | .node n => n.position
  | .section s => s.position

/-- Positions of content that is dropped with a warning. -/
def orphans (items : List Item) : List Position :=
  (items.filter fun i => !isSilent i).map Item.position

def nodesOf (items : List Item) : List Node :=
  items.filterMap fun
    | .node n => some n
    | .section _ => none

def firstSection? (items : List Item) : Option Section :=
  items.findSome? fun
    | .section s => some s
    | .node _ => none

/-- The tree of the top-level content, with the positions of dropped content. -/
def assemble (layout : Option Layout) (items : List Item) :
    Except Rejection (Tree × List Position) :=
  match layout with
  | some l => .ok (.extension l.position l.name (sectionsOf items), orphans items)
  | none =>
    match firstSection? items with
    | some s => .error (.problem (.sectionWithoutLayout s.name) s.position)
    | none => .ok (.page (nodesOf items), [])

def ofTokens (tokens : List Token) : Except Rejection (Tree × List Position) := do
  let r ← tokens.foldlM Reading.step Reading.empty
  assemble r.layout r.items.reverse

end Tree

end Stencil
