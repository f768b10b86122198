import Stencil.Value.Basic

/-!
# Kinds of values

The name under which messages mention the kind of a value.
-/

namespace Stencil

def Builtin.name : Builtin → String
  | range => "range"
  | len => "len"
  | str => "str"
  | int => "int"
  | float => "float"
  | bool => "bool"
  | list => "list"
  | dict => "dict"
  | enumerate => "enumerate"
  | zip => "zip"
  | sorted => "sorted"
  | reversed => "reversed"
  | min => "min"
  | max => "max"
  | sum => "sum"
  | abs => "abs"
  | round => "round"

def Builtin.all : List Builtin :=
  [range, len, str, int, float, bool, list, dict, enumerate, zip, sorted, reversed, min, max,
    sum, abs, round]

/-- Builtins that make values of a kind, as opposed to plain functions. -/
def Builtin.isKind : Builtin → Bool
  | len | sorted | min | max | sum | abs | round => false
  | _ => true

def HostFunction.name : HostFunction → String
  | url => "url"
  | boom => "boom"
  | boomEmpty => "boom_empty"
  | boomPad => "boom_pad"
  | echo => "echo"
  | next => "next"

def ViewKind.name : ViewKind → String
  | keys => "dict_keys"
  | values => "dict_values"
  | items => "dict_items"

def IteratorKind.name : IteratorKind → String
  | list => "list_iterator"
  | listReversed => "list_reverseiterator"
  | tuple => "tuple_iterator"
  | asciiText => "str_ascii_iterator"
  | text => "str_iterator"
  | bytes => "bytes_iterator"
  | set => "set_iterator"
  | range => "range_iterator"
  | longRange => "longrange_iterator"
  | dict .keys => "dict_keyiterator"
  | dict .values => "dict_valueiterator"
  | dict .items => "dict_itemiterator"
  | dictReversed .keys => "dict_reversekeyiterator"
  | dictReversed .values => "dict_reversevalueiterator"
  | dictReversed .items => "dict_reverseitemiterator"
  | enumerate => "enumerate"
  | zip => "zip"
  | reversed => "reversed"
  | sequence => "iterator"
  | generator => "generator"
  | asyncGenerator => "async_generator"

namespace Value

def kindName : Value → String
  | none => "NoneType"
  | ellipsis => "ellipsis"
  | undefined => "_Undefined"
  | bool _ => "bool"
  | int _ => "int"
  | float _ => "float"
  | complex .. => "complex"
  | str _ => "str"
  | bytes _ => "bytes"
  | tuple _ => "tuple"
  | range .. => "range"
  | slice .. => "slice"
  | list _ => "list"
  | dict _ => "dict"
  | set _ => "set"
  | view k _ => k.name
  | iterator k _ => k.name
  | object _ => "Obj"
  | row _ => "Row"
  | textual _ => "Str"
  | loop _ => "LoopContext"
  | builtin b => if b.isKind then "type" else "builtin_function_or_method"
  | host .next => "builtin_function_or_method"
  | host _ => "function"
  | method (loop _) _ => "method"
  | method .. => "builtin_function_or_method"
  | unboundMethod .. => "method_descriptor"
  | function _ => "function"
  | typeOf _ => "type"
  | generic .. => "GenericAlias"

def shortKindName (v : Value) : String :=
  match v with
  | .none => "None"
  | v => v.kindName

end Value

end Stencil
