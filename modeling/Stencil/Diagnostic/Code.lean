import Stencil.Fault
import Stencil.Text.Quoted

/-!
# Error codes

A code is `W-`, the family of the failure and a number within the family.
-/

namespace Stencil

inductive ErrorCode
  | unclosedOutput | unclosedComment | unclosedArguments | missingArguments
  | unexpectedDirective | unclosedBlock | invalidExpression | invalidSection | invalidExtends
  | undefinedVariable | renderError | tooDeep | extendsCycle
  | templateNotFound | syntaxError
deriving DecidableEq, Repr

namespace ErrorCode

def text : ErrorCode → String
  | unclosedOutput => "W-LEX-001"
  | unclosedComment => "W-LEX-002"
  | unclosedArguments => "W-LEX-003"
  | missingArguments => "W-LEX-004"
  | unexpectedDirective => "W-PAR-001"
  | unclosedBlock => "W-PAR-002"
  | invalidExpression => "W-PAR-003"
  | invalidSection => "W-PAR-004"
  | invalidExtends => "W-PAR-005"
  | undefinedVariable => "W-RUN-001"
  | renderError => "W-RUN-002"
  | tooDeep => "W-RUN-003"
  | extendsCycle => "W-RUN-004"
  | templateNotFound => "W-TPL-001"
  | syntaxError => "W-TPL-002"

def name : ErrorCode → String
  | unclosedOutput => "UNCLOSED_OUTPUT"
  | unclosedComment => "UNCLOSED_COMMENT"
  | unclosedArguments => "UNCLOSED_ARGUMENTS"
  | missingArguments => "MISSING_ARGUMENTS"
  | unexpectedDirective => "UNEXPECTED_DIRECTIVE"
  | unclosedBlock => "UNCLOSED_BLOCK"
  | invalidExpression => "INVALID_EXPRESSION"
  | invalidSection => "INVALID_SECTION"
  | invalidExtends => "INVALID_EXTENDS"
  | undefinedVariable => "UNDEFINED_VARIABLE"
  | renderError => "RENDER_ERROR"
  | tooDeep => "TOO_DEEP"
  | extendsCycle => "EXTENDS_CYCLE"
  | templateNotFound => "TEMPLATE_NOT_FOUND"
  | syntaxError => "SYNTAX_ERROR"

def category : ErrorCode → String
  | unclosedOutput | unclosedComment | unclosedArguments | missingArguments => "lexer"
  | unexpectedDirective | unclosedBlock | invalidExpression | invalidSection
  | invalidExtends => "parser"
  | undefinedVariable | renderError | tooDeep | extendsCycle => "runtime"
  | templateNotFound | syntaxError => "template"

def all : List ErrorCode :=
  [unclosedOutput, unclosedComment, unclosedArguments, missingArguments,
    unexpectedDirective, unclosedBlock, invalidExpression, invalidSection, invalidExtends,
    undefinedVariable, renderError, tooDeep, extendsCycle, templateNotFound, syntaxError]

def ofText? (s : String) : Option ErrorCode := all.find? fun c => c.text = s

def unknown (s : String) : Fault :=
  .value (s.quoted ++ " is not a valid ErrorCode")

end ErrorCode

end Stencil
