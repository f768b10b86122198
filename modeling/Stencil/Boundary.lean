import Stencil.Diagnostic.Error

/-!
# Boundaries

A boundary is entered for every page, layout, partial and section body that is rendered. It
knows the template on whose behalf it renders, the line reached there, how many templates are
nested, the call sites that led here, and the chain of layouts. Nesting is limited and a chain
of layouts may not come back to one of its members; both are checked before the next template
is loaded.
-/

namespace Stencil

structure Boundary where
  template : Option String
  filename : Option String
  source : Option String
  line : Int
  depth : Int
  limit : Int
  stack : List CallSite
  chain : List String
deriving DecidableEq, Repr

namespace Boundary

def usualLimit : Int := 50

def blank : Boundary := ⟨none, none, none, 0, 0, usualLimit, [], []⟩

/-- The boundary of a page: its chain begins with the page if that has a name. -/
def page (template filename source : Option String) (limit : Int) : Boundary :=
  { blank with template, filename, source, limit, chain := (nonEmpty template).toList }

variable (b : Boundary)

def atLine (line : Int) : Boundary := { b with line }

def sites : List CallSite :=
  match nonEmpty b.template with
  | some t => if b.line > 0 then b.stack ++ [⟨t, b.line⟩] else b.stack
  | none => b.stack

def checkDepth (name : String) : Except TemplateError Unit :=
  if b.depth ≥ b.limit then .error (.tooDeep name b.limit b.sites) else .ok ()

def checkCycle (name : String) : Except TemplateError Unit :=
  if b.chain.contains name then .error (.cycle (b.chain ++ [name])) else .ok ()

/-- The boundary of a nested template, which goes on with the chain if it is a layout. -/
def child (name : String) (filename source : Option String) (isLayout : Bool) : Boundary where
  template := some name
  filename := filename
  source := source
  line := 0
  depth := b.depth + 1
  limit := b.limit
  stack := b.sites
  chain := if isLayout then b.chain ++ [name] else [name]

/-- The boundary of a section body: only the place for messages moves to its owner. -/
def ofSection (owner filename source : Option String) : Boundary :=
  { b with template := owner, filename, source, line := 0, stack := b.sites }

def snippet? : Option Snippet :=
  match nonEmpty b.source, nonZero (some b.line) with
  | some source, some line => Snippet.build? source line 2 none
  | _, _ => none

def failure (f : Fault) : TemplateError :=
  .failed f.headline none ⟨b.template, nonZero (some b.line), some f, b.snippet?, b.stack⟩

/-- A fault of evaluation, reported at the line reached, unless its message cannot be written. -/
def failed (f : Fault) : Except Fault TemplateError :=
  match f.inWriting? with
  | none => .ok (b.failure f)
  | some g => .error g

/-- A name that is missing, reported at the line reached. -/
def undefinedName (name : String) (available : List String) : TemplateError :=
  .undefinedName name b.template available (some b.line) b.snippet? b.stack

end Boundary

def undefinedAt (b : Option Boundary) (name : String) (available : List String) : TemplateError :=
  match b with
  | some b => b.undefinedName name available
  | none => .undefinedName name none available none none []

/-- Boundaries that have been made, the one in hand and those that are entered, innermost
first. -/
structure Boundaries where
  made : Array Boundary
  current : Nat
  entered : List Nat

namespace Boundaries

def start : Boundaries := ⟨#[.blank], 0, []⟩

def inHand (s : Boundaries) : Boundary := s.made.getD s.current .blank

def active? (s : Boundaries) : Option Boundary := s.entered.head?.map (s.made.getD · .blank)

def take (s : Boundaries) (b : Boundary) : Boundaries :=
  { s with made := s.made.push b, current := s.made.size }

def markLine (s : Boundaries) (line : Int) : Boundaries :=
  { s with made := s.made.modify s.current fun b => { b with line } }

def enter (s : Boundaries) : Boundaries := { s with entered := s.current :: s.entered }

def leave (s : Boundaries) : Boundaries := { s with entered := s.entered.tail }

end Boundaries

end Stencil
