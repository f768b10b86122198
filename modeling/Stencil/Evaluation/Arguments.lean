import Stencil.Value.Compare

/-!
# Arguments of host functions

How functions complain about the number and the names of their arguments.
-/

namespace Stencil.Arguments

/-- A number of things, in the plural unless there is one. -/
def counted (n : Nat) (what : String) : String :=
  toString n ++ " " ++ what ++ if n = 1 then "" else "s"

variable (title : String) (args : List Value) (keywords : Bindings)

def noKeywords : Except Fault Unit :=
  if keywords.isEmpty then .ok () else .error (.type (title ++ "() takes no keyword arguments"))

def nothing : Except Fault Unit :=
  if args.isEmpty then .ok ()
  else
    .error (.type (title ++ "() takes no arguments (" ++ toString args.length ++ " given)"))

def one : Except Fault Value :=
  match args with
  | [v] => .ok v
  | _ =>
    .error (.type (title ++ "() takes exactly one argument (" ++ toString args.length ++ " given)"))

def between (low high : Nat) : Except Fault Unit :=
  let complain (bound : String) (n : Nat) : Except Fault Unit :=
    .error (.type (title ++ " expected " ++ bound ++ counted n "argument" ++ ", got " ++
      toString args.length))
  if args.length < low then complain (if low = high then "" else "at least ") low
  else if high < args.length then complain (if low = high then "" else "at most ") high
  else .ok ()

def atMost (high : Nat) : Except Fault Unit :=
  let given := args.length + keywords.length
  if given > high then
    .error (.type (title ++ "() takes at most " ++ counted high "argument" ++ " (" ++
      toString given ++ " given)"))
  else .ok ()

def invalidKeyword (name : String) : Fault :=
  .type ("'" ++ name ++ "' is an invalid keyword argument for " ++ title ++ "()")

def onlyKeywords (names : List String) : Except Fault Unit :=
  match keywords.find? fun (n, _) => !names.contains n with
  | some (n, _) => .error (invalidKeyword title n)
  | none => .ok ()

def noInteger (v : Value) : Fault :=
  .type ("'" ++ v.kindName ++ "' object cannot be interpreted as an integer")

def integer (v : Value) : Except Fault Int :=
  match v.integer? with
  | some n => .ok n
  | none => .error (noInteger v)

end Stencil.Arguments
