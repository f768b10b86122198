import Stencil.Diagnostic.Code
import Stencil.Diagnostic.Snippet
import Stencil.Fault
import Stencil.Text.Closest
import Stencil.Text.Search

/-!
# Template errors

Everything that can go wrong with a template: it is not found, malformed, extends itself, is
nested too deeply, or fails while it is rendered. Each error knows its code, the template at
fault and, for failures inside nested templates, the chain of templates that led there. The
wording is in `message` and, for a terminal, in `compact`; both take the color flag.
-/

namespace Stencil

/-- A template and the line of it that was being executed. -/
structure CallSite where
  template : String
  line : Int
deriving DecidableEq, Repr

def templateStack (colors : Bool) (stack : List CallSite) : String :=
  if stack.isEmpty then ""
  else
    "\n".intercalate (Terminal.dim colors "Template stack:" ::
      stack.map fun s =>
        "  • " ++ Terminal.location colors (s.template ++ ":" ++ toString s.line))

structure SyntaxError where
  message : String
  line : Option Int
  name : Option String
  filename : Option String
  source : Option String
  column : Option Int
  code : ErrorCode
deriving DecidableEq, Repr

/-- Where and why a render stopped. -/
structure RenderFailure where
  template : Option String
  line : Option Int
  cause : Option Fault
  snippet : Option Snippet
  stack : List CallSite
deriving DecidableEq, Repr

inductive TemplateError
  | plain (message : String)
  | notFound (message : String) (name : Option String)
  | malformed (error : SyntaxError)
  | cycle (chain : List String)
  | tooDeep (name : String) (limit : Int) (stack : List CallSite)
  | failed (message : String) (suggestion : Option String) (failure : RenderFailure)
  | undefined (name : String) (guess : Option String) (failure : RenderFailure)
deriving DecidableEq, Repr

def nonEmpty (s : Option String) : Option String :=
  match s with
  | some t => if t.isEmpty then none else some t
  | none => none

def nonZero (n : Option Int) : Option Int :=
  match n with
  | some k => if k = 0 then none else some k
  | none => none

namespace SyntaxError

def location (e : SyntaxError) : String :=
  let place := ((nonEmpty e.filename).orElse fun _ => nonEmpty e.name).getD "<template>"
  match nonZero e.line with
  | none => place
  | some line =>
    place ++ ":" ++ toString line ++
      match e.column with
      | none => ""
      | some column => ":" ++ toString column

/-- The excerpt of the source, if source and line are known. -/
def snippet? (e : SyntaxError) (context : Int) : Option Snippet :=
  match nonEmpty e.source, nonZero e.line with
  | some source, some line => Snippet.build? source line context e.column
  | _, _ => none

def excerpt (colors : Bool) (e : SyntaxError) (context : Int) : String :=
  match e.snippet? context with
  | some s => "\n" ++ s.text colors
  | none => ""

def text (colors : Bool) (e : SyntaxError) : String :=
  "Syntax Error: " ++ e.message ++ "\n  --> " ++ e.location ++ e.excerpt colors 0

def compact (colors : Bool) (e : SyntaxError) : String :=
  Terminal.errorHeader colors (some e.code.text) e.message ++ "\n  --> " ++
    Terminal.location colors e.location ++ e.excerpt colors 2

end SyntaxError

namespace RenderFailure

def location (f : RenderFailure) : String :=
  (nonEmpty f.template).getD "<template>" ++
    match nonZero f.line with
    | none => ""
    | some line => ":" ++ toString line

/-- The message under a headline: location, excerpt, stack and hint. -/
def text (colors : Bool) (headline : String) (suggestion : Option String)
    (f : RenderFailure) : String :=
  "\n".intercalate <|
    [headline, "  Location: " ++ Terminal.location colors f.location] ++
    (match f.snippet with
      | some s => [s.text colors]
      | none => []) ++
    (if f.stack.isEmpty then [] else ["", templateStack colors f.stack]) ++
    (match nonEmpty suggestion with
      | some s => ["  " ++ Terminal.hint colors "Hint:" ++ " " ++ s]
      | none => [])

end RenderFailure

namespace TemplateError

def code : TemplateError → Option ErrorCode
  | plain _ => none
  | notFound .. => some .templateNotFound
  | malformed e => some e.code
  | cycle _ => some .extendsCycle
  | tooDeep .. => some .tooDeep
  | failed .. => some .renderError
  | undefined .. => some .undefinedVariable

def title : TemplateError → String
  | plain _ => "TemplateError"
  | notFound .. => "TemplateNotFoundError"
  | malformed _ => "TemplateSyntaxError"
  | cycle _ => "TemplateCycleError"
  | tooDeep .. => "TemplateTooDeepError"
  | failed .. => "TemplateRenderError"
  | undefined .. => "UndefinedError"

/-- The template an error is reported against. -/
def name : TemplateError → Option String
  | plain _ => none
  | notFound _ name => name
  | malformed e => e.name
  | cycle chain => chain.head?
  | tooDeep name _ _ => some name
  | failed _ _ f => f.template
  | undefined _ _ f => f.template

/-- The error for a name the render data does not have; a close match among `available` is
offered as a guess. -/
def undefinedName (name : String) (template : Option String) (available : List String)
    (line : Option Int) (snippet : Option Snippet) (stack : List CallSite) : TemplateError :=
  .undefined name (Text.Closest.closest? name available)
    ⟨some ((nonEmpty template).getD "<template>"), line, none, snippet, stack⟩

def hint (colors : Bool) : TemplateError → Option String
  | failed _ suggestion _ => suggestion
  | undefined _ guess _ =>
    guess.map fun g => "Did you mean '" ++ Terminal.suggestion colors g ++ "'?"
  | _ => none

def message (colors : Bool) : TemplateError → String
  | plain m => m
  | notFound m _ => m
  | malformed e => e.text colors
  | cycle chain => "Cyclic @extends chain: " ++ " -> ".intercalate chain
  | tooDeep name limit stack =>
    "Maximum template nesting depth (" ++ toString limit ++ ") exceeded while loading '" ++
      name ++ "'" ++
      if stack.isEmpty then "" else "\n\n" ++ templateStack colors stack
  | failed m suggestion f => f.text colors ("Render Error: " ++ m) suggestion
  | undefined name guess f =>
    f.text colors
      ("Undefined variable '" ++ name ++ "' in " ++ Terminal.location colors f.location)
      (hint colors (undefined name guess f))

/-- The message for a terminal, behind its code unless the message names it already. -/
def compact (colors : Bool) : TemplateError → String
  | malformed e => e.compact colors
  | e =>
    let header := e.message colors
    match e.code with
    | some c =>
      if header.hasPart c.text then header else Terminal.errorHeader colors (some c.text) header
    | none => header

end TemplateError

end Stencil
