import Stencil.Text.Blank

/-!
# Faults of evaluation

What goes wrong while an expression is evaluated, a host function is called or a source is
read: a kind, with the title under which it is reported, and a message.
-/

namespace Stencil

inductive FaultKind
  | arithmetic | assertion | missingAttribute | file | index | key | lookup | memory | name
  | notImplemented | overflow | permission | recursion | runtime | stopIteration | invalidSyntax
  | type | unboundLocal | undecodable | unencodable | value | zeroDivision | isADirectory
  | fileNotFound | notADirectory | system
deriving DecidableEq, Repr

namespace FaultKind

def title : FaultKind → String
  | arithmetic => "ArithmeticError"
  | assertion => "AssertionError"
  | missingAttribute => "AttributeError"
  | file => "OSError"
  | index => "IndexError"
  | key => "KeyError"
  | lookup => "LookupError"
  | memory => "MemoryError"
  | name => "NameError"
  | notImplemented => "NotImplementedError"
  | overflow => "OverflowError"
  | permission => "PermissionError"
  | recursion => "RecursionError"
  | runtime => "RuntimeError"
  | stopIteration => "StopIteration"
  | invalidSyntax => "SyntaxError"
  | type => "TypeError"
  | unboundLocal => "UnboundLocalError"
  | undecodable => "UnicodeDecodeError"
  | unencodable => "UnicodeEncodeError"
  | value => "ValueError"
  | zeroDivision => "ZeroDivisionError"
  | isADirectory => "IsADirectoryError"
  | fileNotFound => "FileNotFoundError"
  | notADirectory => "NotADirectoryError"
  | system => "SystemError"

end FaultKind

/-- What goes wrong, told by a message. The message of a missing key is written only where it is
told; if it cannot be, what goes wrong then is told instead. -/
inductive Fault
  | told (kind : FaultKind) (message : String)
  | unwrittenKey (kind : FaultKind) (message : String)
deriving DecidableEq, Repr

namespace Fault

def kind : Fault → FaultKind
  | told kind _ => kind
  | unwrittenKey .. => .key

def message : Fault → String
  | told _ message => message
  | unwrittenKey .. => ""

def inWriting? : Fault → Option Fault
  | told .. => none
  | unwrittenKey kind message => some (told kind message)

theorem inWriting?_inWriting {f g : Fault} (h : f.inWriting? = some g) : g.inWriting? = none := by
  cases f with
  | told kind message => cases h
  | unwrittenKey kind message =>
    cases h
    rfl

theorem inWriting?_of_kind {f : Fault} (h : f.kind ≠ .key) : f.inWriting? = none := by
  cases f with
  | told kind message => rfl
  | unwrittenKey kind message => exact absurd rfl h

def type (message : String) : Fault := told .type message
def value (message : String) : Fault := told .value message
def missingAttribute (message : String) : Fault := told .missingAttribute message
def index (message : String) : Fault := told .index message
def key (message : String) : Fault := told .key message
def overflow (message : String) : Fault := told .overflow message
def runtime (message : String) : Fault := told .runtime message
def zeroDivision (message : String) : Fault := told .zeroDivision message

/-- Evaluation nested too deeply. -/
def tooRecursive : Fault := told .recursion "maximum recursion depth exceeded"

/-- The title and, unless it is blank, the message. -/
def headline (f : Fault) : String :=
  let stripped := f.message.stripBlanks
  if stripped.isEmpty then f.kind.title else f.kind.title ++ ": " ++ stripped

end Fault

end Stencil
