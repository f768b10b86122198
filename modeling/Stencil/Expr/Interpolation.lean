/-!
# Interpolated string literals

The body of an interpolated literal is literal text and replacement fields. A field holds the
text of an expression and may show that text, convert the value, and give a format, which is
itself interpolated one level deep.
-/

namespace Stencil.Expr.Interpolation

inductive Part
  | literal (text : List Char)
  | field (code : List Char) (shown : Option (List Char)) (conversion : Option Char)
      (format : Option (List Part))
deriving Repr

/-- The literal text up to a brace or the end. At the top level a doubled brace is one brace
and a single closing brace is a fault; `none` marks the fault. The flag tells that the text
was cut behind a doubled brace. -/
def literalText (raw top : Bool) : Nat → List Char → Option (List Char × Bool × List Char)
  | 0, _ => none
  | _ + 1, [] => some ([], false, [])
  | fuel + 1, c :: cs =>
    let go (kept : List Char) (rest : List Char) :=
      (literalText raw top fuel rest).map fun (text, cut, after) => (kept ++ text, cut, after)
    let brace (kept : List Char) (b : Char) (rest : List Char) :=
      if top && rest.head? = some b then some (kept ++ [b], true, rest.tail)
      else if top && b = '}' then none
      else some (kept, false, b :: rest)
    if !raw && c = '\\' then
      match cs with
      | [] => go [c] []
      | 'N' :: '{' :: rest =>
        let name := rest.takeWhile (· ≠ '}')
        go (c :: 'N' :: '{' :: name ++ (rest.drop name.length).take 1) (rest.drop (name.length + 1))
      | 'N' :: d :: rest => go [c, 'N', d] rest
      | d :: rest => if d = '{' || d = '}' then brace [c] d rest else go [c, d] rest
    else if c = '{' || c = '}' then brace [] c cs
    else go [c] cs

structure Scan where
  quote : Option (List Char)
  brackets : List Char

/-- The text of an expression up to the character that ends it. -/
def codeText : Nat → Scan → List Char → Option (List Char × List Char)
  | 0, _, _ => none
  | _ + 1, _, [] => none
  | fuel + 1, st, c :: cs =>
    let keep (n : Nat) (st : Scan) :=
      (codeText fuel st ((c :: cs).drop n)).map fun (code, rest) => ((c :: cs).take n ++ code, rest)
    if c = '\\' then none
    else
      match st.quote with
      | some q =>
        if q.isPrefixOf (c :: cs) then keep q.length ⟨none, st.brackets⟩ else keep 1 st
      | none =>
        if c = '\'' || c = '"' then
          let q := if [c, c].isPrefixOf cs then [c, c, c] else [c]
          keep q.length ⟨some q, st.brackets⟩
        else if c = '(' then keep 1 ⟨none, ')' :: st.brackets⟩
        else if c = '[' then keep 1 ⟨none, ']' :: st.brackets⟩
        else if c = '{' then keep 1 ⟨none, '}' :: st.brackets⟩
        else if c = '#' then none
        else if st.brackets.isEmpty && ['!', ':', '}', '=', '<', '>'].contains c then
          if c ≠ '}' && c ≠ ':' && cs.head? = some '=' then keep 2 st
          else if c = '<' || c = '>' then keep 1 st
          else some ([], c :: cs)
        else if c = ')' || c = ']' || c = '}' then
          if st.brackets.head? = some c then keep 1 ⟨none, st.brackets.tail⟩ else none
        else keep 1 st

def isEmptyCode (code : List Char) : Bool :=
  code.all fun c => [' ', '\t', '\n', '\x0c', '\r'].contains c

def isSpace (c : Char) : Bool := [' ', '\t', '\n', '\r', '\x0b', '\x0c'].contains c

def deepestLevel : Nat := 2

/-- Parts from here on: to the end at the top level, to a closing brace inside a format. -/
def parts (raw : Bool) : Nat → Nat → List Char → Option (List Part × List Char)
  | 0, _, _ => none
  | fuel + 1, level, s =>
    match literalText raw (level = 0) (s.length + 1) s with
    | none => none
    | some (text, cut, rest) =>
      let lead := if text.isEmpty then [] else [Part.literal text]
      let continueWith (part : List Part) (rest : List Char) :=
        (parts raw fuel level rest).map fun (more, after) => (lead ++ part ++ more, after)
      if cut then continueWith [] rest
      else
        match rest with
        | '{' :: inside =>
          if level ≥ deepestLevel then none
          else
            match codeText (inside.length + 1) ⟨none, []⟩ inside with
            | none => none
            | some (code, after) =>
              if isEmptyCode code then none
              else
                let (shown, after) := match after with
                  | '=' :: more =>
                    let space := more.takeWhile isSpace
                    (some (code ++ '=' :: space), more.drop space.length)
                  | _ => (none, after)
                let converted : Option (Option Char × List Char) := match after with
                  | '!' :: k :: more =>
                    if ['s', 'r', 'a'].contains k then some (some k, more) else none
                  | '!' :: [] => none
                  | _ => some (none, after)
                match converted with
                | none => none
                | some (conversion, ':' :: spec) =>
                  match parts raw fuel (level + 1) spec with
                  | some (format, '}' :: more) =>
                    continueWith [.field code shown conversion (some format)] more
                  | _ => none
                | some (conversion, '}' :: more) =>
                  let conversion := if shown.isSome then conversion.or (some 'r') else conversion
                  continueWith [.field code shown conversion none] more
                | some _ => none
        | rest => some (lead, rest)

def split? (raw : Bool) (body : List Char) : Option (List Part) :=
  match parts raw (2 * body.length + 2) 0 body with
  | some (ps, []) => some ps
  | _ => none

end Stencil.Expr.Interpolation
