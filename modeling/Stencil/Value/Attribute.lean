import Stencil.Value.Loop

/-!
# Attributes

The properties and methods that values have, and the lookup of `value.name` in a template: a
dictionary is asked for its entry first, any other value for its attribute first and then for
an item of that name. Leniently, what is missing is an undefined value.
-/

namespace Stencil

namespace Value

def textMethods : List String :=
  ["capitalize", "count", "endswith", "find", "index", "join", "lower", "lstrip", "replace",
    "rfind", "rindex", "rstrip", "split", "startswith", "strip", "title", "upper"]

def listMethods : List String :=
  ["append", "clear", "copy", "count", "extend", "index", "insert", "pop", "remove", "reverse"]

def dictMethods : List String :=
  ["clear", "copy", "get", "items", "keys", "pop", "setdefault", "update", "values"]

def setMethods : List String := ["add", "clear", "copy", "discard", "remove"]

def methodsOf : Value → List String
  | .str _ => textMethods
  | .list _ => listMethods
  | .dict _ => dictMethods
  | .set _ => setMethods
  | .tuple _ | .range .. => ["count", "index"]
  | .loop _ => ["cycle"]
  | _ => []

/-- The methods that can be taken from the kind that a builtin makes. -/
def methodsOfKind : Builtin → List String
  | .str => textMethods
  | .list => listMethods
  | .dict => dictMethods
  | .range => ["count", "index"]
  | _ => []

def property? (h : Heap) (v : Value) (name : String) : Option (Except Fault Value) :=
  match v, name with
  | .bool b, "real" | .bool b, "numerator" => some (.ok (.int (if b then 1 else 0)))
  | .int n, "real" | .int n, "numerator" => some (.ok (.int n))
  | .bool _, "imag" | .int _, "imag" => some (.ok (.int 0))
  | .bool _, "denominator" | .int _, "denominator" => some (.ok (.int 1))
  | .float x, "real" => some (.ok (.float x))
  | .float _, "imag" => some (.ok (.float (.zero false)))
  | .complex re _, "real" => some (.ok (.float re))
  | .complex _ im, "imag" => some (.ok (.float im))
  | .range a _ _, "start" => some (.ok (.int a))
  | .range _ b _, "stop" => some (.ok (.int b))
  | .range _ _ c, "step" => some (.ok (.int c))
  | .slice a _ _, "start" => some (.ok a)
  | .slice _ b _, "stop" => some (.ok b)
  | .slice _ _ c, "step" => some (.ok c)
  | .object r, name => (h.fields r).lookup name |>.map .ok
  | .row r, "_data" => some (.ok (.dict r))
  | .loop r, name => (h.loopState r).property? h name
  | .undefined, name => if "__".isPrefixOf name then .none else some (.ok .undefined)
  | _, _ => .none

def noAttribute (v : Value) (name : String) : Fault :=
  match v with
  | .undefined => .missingAttribute name
  | .builtin b =>
    if b.isKind then
      .missingAttribute ("type object '" ++ b.name ++ "' has no attribute '" ++ name ++ "'")
    else
      .missingAttribute ("'" ++ v.kindName ++ "' object has no attribute '" ++ name ++ "'")
  | v => .missingAttribute ("'" ++ v.kindName ++ "' object has no attribute '" ++ name ++ "'")

def ownAttribute (h : Heap) (v : Value) (name : String) : Except Fault Value :=
  match property? h v name with
  | some result => result
  | .none =>
    if (methodsOf v).contains name then .ok (.method v name)
    else
      match v with
      | .builtin b =>
        if (methodsOfKind b).contains name then .ok (.unboundMethod b name)
        else .error (noAttribute v name)
      | v => .error (noAttribute v name)

def hasItems : Value → Bool
  | .list _ | .tuple _ | .range .. | .row _ | .undefined | .builtin _ => true
  | _ => false

/-- An item of that name instead of an attribute; the fault stands if there is none. -/
def itemInstead (v : Value) (name : String) (f : Fault) : Eval Value :=
  tryCatch (subscript v (.str name)) fun
    | .fault g =>
      if g.kind = .key || g.kind = .index || g.kind = .type then Eval.fault f else Eval.fault g
    | halt => throw halt

def member (v : Value) (name : String) : Eval Value := do
  let h ← get
  match v with
  | .dict r =>
    match ← Eval.ofExcept (lookupKey? h (h.dictEntries r) (.str name)) with
    | some w => return w
    | .none =>
      match ownAttribute h v name with
      | .ok w => return w
      | .error _ =>
        Eval.fault (.missingAttribute ("dict has no key or attribute '" ++ name ++ "'"))
  | v =>
    match ownAttribute h v name with
    | .ok w => return w
    | .error f =>
      if f.kind = .missingAttribute && hasItems v then itemInstead v name f else Eval.fault f

/-- The meaning of `v.name` where missing attributes are undefined values. -/
def memberLenient (v : Value) (name : String) : Eval Value :=
  match v with
  | .none | .undefined => return .undefined
  | v =>
    tryCatch (member v name) fun
      | .fault f => if f.kind = .missingAttribute then return .undefined else Eval.fault f
      | halt => throw halt

end Value

end Stencil
