import Stencil.Evaluation.Builtins
import Stencil.Evaluation.Closure
import Stencil.Evaluation.Host
import Stencil.Evaluation.Methods
import Stencil.Proofs.CarriedItems

/-!
# Renamed arguments

Functions check the number, the names and the kinds of their arguments before they do anything.
None of this depends on where a heap has its cells: renamed arguments pass or fail the same
checks, and what is computed from them alone is the renamed result.
-/

namespace Stencil

namespace Renaming

variable (ρ : Renaming) (args : List Value) (keywords : Bindings)

theorem mapM_map {α β γ : Type} (f : α → β) (g : β → Except Fault γ) (as : List α) :
    (as.map f).mapM g = as.mapM fun a => g (f a) := by
  induction as with
  | nil => rfl
  | cons a as ih => rw [List.map_cons, List.mapM_cons, List.mapM_cons, ih]

theorem getElem?_values (i : Nat) : (args.map ρ.value)[i]? = args[i]?.map ρ.value :=
  List.getElem?_map

theorem head?_values : (args.map ρ.value).head? = args.head?.map ρ.value := List.head?_map

theorem headD_values {v : Value} (hv : ρ.value v = v) :
    (args.map ρ.value).headD v = ρ.value (args.headD v) := by
  cases args with
  | nil => exact hv.symm
  | cons w args => rfl

theorem optionGetD_value {v : Value} (hv : ρ.value v = v) (w : Option Value) :
    (w.map ρ.value).getD v = ρ.value (w.getD v) := by
  cases w with
  | none => exact hv.symm
  | some w => rfl

theorem getD_values (i : Nat) {v : Value} (hv : ρ.value v = v) :
    (args.map ρ.value).getD i v = ρ.value (args.getD i v) := by
  rw [List.getD_eq_getElem?_getD, List.getD_eq_getElem?_getD, List.getElem?_map,
    ρ.optionGetD_value hv]

theorem given_value (i : Nat) (name : String) :
    ((args.map ρ.value)[i]?).or ((ρ.bindings keywords).get? name) =
      ((args[i]?).or (keywords.get? name)).map ρ.value := by
  rw [List.getElem?_map, ρ.bindings_get?, Option.map_or]

namespace Arguments

open Stencil.Arguments

theorem noKeywords_value (title : String) :
    noKeywords title (ρ.bindings keywords) = noKeywords title keywords := by
  unfold noKeywords
  rw [ρ.bindings_isEmpty]

theorem nothing_value (title : String) : nothing title (args.map ρ.value) = nothing title args := by
  unfold nothing
  rw [List.isEmpty_map, List.length_map]

theorem one_value (title : String) :
    one title (args.map ρ.value) = (one title args).map ρ.value := by
  match args with
  | [] => rfl
  | [v] => rfl
  | v :: w :: rest =>
    change Except.error (Fault.type (title ++ "() takes exactly one argument (" ++
      toString (List.map ρ.value (v :: w :: rest)).length ++ " given)")) = _
    rw [List.length_map]
    rfl

theorem between_value (title : String) (low high : Nat) :
    between title (args.map ρ.value) low high = between title args low high := by
  unfold between
  rw [List.length_map]

theorem atMost_value (title : String) (high : Nat) :
    atMost title (args.map ρ.value) (ρ.bindings keywords) high =
      atMost title args keywords high := by
  unfold atMost bindings
  rw [List.length_map, List.length_map]

theorem onlyKeywords_value (title : String) (names : List String) :
    onlyKeywords title (ρ.bindings keywords) names = onlyKeywords title keywords names := by
  have hfind : (ρ.bindings keywords).find? (fun e => !names.contains e.1) =
      (keywords.find? fun e => !names.contains e.1).map ρ.binding := List.find?_map ..
  unfold onlyKeywords
  rw [hfind]
  cases keywords.find? fun e => !names.contains e.1 <;> rfl

theorem integer_value (v : Value) : integer (ρ.value v) = integer v := by
  unfold integer noInteger
  rw [ρ.integer?_value, ρ.kindName_value]

end Arguments

attribute [simp] Arguments.noKeywords_value Arguments.nothing_value Arguments.between_value
  Arguments.atMost_value Arguments.onlyKeywords_value Arguments.integer_value

namespace Builtins

open Stencil.Builtins

theorem range_value : range (args.map ρ.value) (ρ.bindings keywords) =
    (range args keywords).map ρ.value := by
  unfold range
  rw [Arguments.noKeywords_value, Arguments.between_value, mapM_map]
  simp only [Arguments.integer_value]
  refine Except.bind_same_eq_map fun _ => Except.bind_same_eq_map fun _ => ?_
  refine Except.bind_same_eq_map fun bounds => ?_
  split
  · rfl
  · rfl
  · split <;> rfl
  · rfl

theorem wantedText_value (title : String) (v : Value) :
    wantedText title (ρ.value v) = wantedText title v := by
  have hkind := congrArg (fun kind => (Except.error (Fault.type
    (title ++ " must be str, not " ++ kind)) : Except Fault String)) (ρ.shortKindName_value v)
  cases v with
  | str s => rfl
  | _ => exact hkind

theorem decoded_value (v : Value) (encoding handling : Option Value) :
    decoded (ρ.value v) (encoding.map ρ.value) (handling.map ρ.value) =
      decoded v encoding handling := by
  have hname (title usual : String) (v : Option Value) :
      ((v.map ρ.value).map (wantedText title)).getD (.ok usual) =
        (v.map (wantedText title)).getD (.ok usual) := by
    rw [Option.map_map]
    congr 2
    exact funext fun v => wantedText_value ρ title v
  have hkind := congrArg (fun kind => (Except.error (Fault.type
    ("decoding to str: need a bytes-like object, " ++ kind ++ " found")) : Except Fault String))
    (ρ.kindName_value v)
  unfold decoded
  simp only [hname]
  refine congrArg _ (funext fun encoding => congrArg _ (funext fun handling => ?_))
  cases v with
  | str s => rfl
  | bytes b => rfl
  | _ => exact hkind

theorem readInteger_value (base : Nat) (s : List Char) (shown : String) :
    (readInteger base s shown).map ρ.value = readInteger base s shown := by
  unfold readInteger
  dsimp only
  split
  · split <;> rfl
  · rfl

theorem wrongFor_value (title wanted : String) (v : Value) :
    wrongFor title wanted (ρ.value v) = wrongFor title wanted v := by
  unfold wrongFor
  rw [ρ.kindName_value]

theorem integerOf_value (v : Value) : integerOf (ρ.value v) = (integerOf v).map ρ.value := by
  have hother := congrArg (Except.error : Fault → Except Fault Value)
    (wrongFor_value ρ "int" "a string, a bytes-like object or a real number" v)
  cases v with
  | bool b => rfl
  | int n => rfl
  | float x =>
    dsimp only [value, integerOf]
    split
    · rfl
    · split <;> rfl
  | str s => exact (readInteger_value ρ ..).symm
  | bytes b => exact (readInteger_value ρ ..).symm
  | _ => exact hother

theorem int_value : int (args.map ρ.value) (ρ.bindings keywords) =
    (int args keywords).map ρ.value := by
  unfold int
  rw [Arguments.atMost_value, Arguments.onlyKeywords_value, ρ.given_value, ρ.getElem?_values]
  refine Except.bind_same_eq_map fun _ => Except.bind_same_eq_map fun _ => ?_
  cases args[0]? with
  | none => cases (args[1]?).or (keywords.get? "base") <;> rfl
  | some v =>
    cases (args[1]?).or (keywords.get? "base") with
    | none => exact integerOf_value ρ v
    | some b =>
      dsimp only [Option.map_some]
      rw [Arguments.integer_value]
      refine Except.bind_same_eq_map fun base => ?_
      split
      · rfl
      · cases v with
        | str s => exact (readInteger_value ρ ..).symm
        | bytes b => exact (readInteger_value ρ ..).symm
        | _ => rfl

theorem floatFrom_value (s : List Char) (shown : String) :
    (floatFrom s shown).map ρ.value = floatFrom s shown := by
  unfold floatFrom
  split <;> rfl

theorem float_value : float (args.map ρ.value) (ρ.bindings keywords) =
    (float args keywords).map ρ.value := by
  unfold float
  rw [Arguments.noKeywords_value, Arguments.between_value]
  refine Except.bind_same_eq_map fun _ => Except.bind_same_eq_map fun _ => ?_
  cases args with
  | nil => rfl
  | cons v rest =>
    have hwrong := congrArg (Except.error : Fault → Except Fault Value)
      (wrongFor_value ρ "float" "a string or a real number" v)
    cases v with
    | str s => exact (floatFrom_value ρ ..).symm
    | bytes b => exact (floatFrom_value ρ ..).symm
    | bool b => exact Except.bind_same_eq_map fun x => rfl
    | int n => exact Except.bind_same_eq_map fun x => rfl
    | float x => rfl
    | _ => exact hwrong

theorem enumerateArguments_value :
    enumerateArguments (args.map ρ.value) (ρ.bindings keywords) =
      (enumerateArguments args keywords).map (Prod.map ρ.value (Option.map ρ.value)) := by
  unfold enumerateArguments
  rw [Arguments.atMost_value]
  refine Except.bind_same_eq_map fun _ => ?_
  match args, keywords with
  | [], [] => rfl
  | [v], [] => rfl
  | [v, start], _ => rfl
  | [v], (k, start) :: _ =>
    change (if k = "start" then _ else _) = (if k = "start" then _ else _ : Except _ _).map _
    split <;> rfl
  | [], (k, w) :: keywords =>
    have honly := Arguments.onlyKeywords_value ρ ((k, w) :: keywords) "enumerate"
      ["iterable", "start"]
    have hiterable := ρ.bindings_get? ((k, w) :: keywords) "iterable"
    have hstart := ρ.bindings_get? ((k, w) :: keywords) "start"
    have hcons : ρ.bindings ((k, w) :: keywords) = (k, ρ.value w) :: ρ.bindings keywords := rfl
    rw [hcons] at honly hiterable hstart ⊢
    rw [List.map_nil]
    dsimp only
    rw [honly, hiterable, hstart]
    cases BindingsOf.get? ((k, w) :: keywords) "iterable" with
    | none => rfl
    | some v => exact Except.bind_same_eq_map fun _ => rfl
  | u :: v :: w :: rest, _ => rfl

theorem abs_value : Builtins.abs (args.map ρ.value) (ρ.bindings keywords) =
    (Builtins.abs args keywords).map ρ.value := by
  unfold Builtins.abs
  rw [Arguments.noKeywords_value, Arguments.one_value]
  refine Except.bind_same_eq_map fun _ => Except.bind_eq_map rfl fun v => ?_
  rw [ρ.number?_value, ρ.kindName_value]
  split <;> rfl

theorem rounded_value (v : Value) (digits : Option Value) :
    rounded (ρ.value v) (digits.map ρ.value) = (rounded v digits).map ρ.value := by
  have hother := congrArg (fun kind => (Except.error (Fault.type
    ("type " ++ kind ++ " doesn't define __round__ method")) : Except Fault Value))
    (ρ.kindName_value v)
  unfold rounded
  rw [ρ.number?_value]
  cases v.number? with
  | none => exact hother
  | some n =>
    cases n with
    | int n =>
      cases digits with
      | none => rfl
      | some d =>
        dsimp only [Option.map_some]
        rw [Arguments.integer_value]
        exact Except.bind_same_eq_map fun d => rfl
    | float x =>
      cases digits with
      | none =>
        dsimp only [Option.map_none]
        split
        · rfl
        · split <;> rfl
      | some d =>
        dsimp only [Option.map_some]
        rw [Arguments.integer_value]
        refine Except.bind_same_eq_map fun d => ?_
        split <;> rfl
    | complex re im => cases digits <;> exact hother

theorem ifGiven_value (v : Option Value) :
    ifGiven (v.map ρ.value) = (ifGiven v).map ρ.value := by
  cases v with
  | none => rfl
  | some v => cases v <;> rfl

theorem round_value : Builtins.round (args.map ρ.value) (ρ.bindings keywords) =
    (Builtins.round args keywords).map ρ.value := by
  unfold Builtins.round
  rw [Arguments.atMost_value, Arguments.onlyKeywords_value, ρ.given_value, ρ.given_value]
  refine Except.bind_same_eq_map fun _ => ?_
  cases (args[0]?).or (keywords.get? "number") with
  | none => rfl
  | some v =>
    refine Except.bind_same_eq_map fun _ => ?_
    rw [ifGiven_value]
    exact rounded_value ρ v _

end Builtins

namespace TextMethod

open Stencil.TextMethod

theorem wantText_value (v : Value) : wantText (ρ.value v) = wantText v := by
  have hkind := congrArg (fun kind => (Except.error (Fault.type ("must be str, not " ++ kind)) :
    Except Fault (List Char))) (ρ.kindName_value v)
  cases v with
  | str s => rfl
  | _ => exact hkind

theorem strip_value (name : String) (ends : Ends) (s : List Char) :
    strip name ends s (args.map ρ.value) = (strip name ends s args).map ρ.value := by
  unfold strip
  rw [Arguments.between_value]
  refine Except.bind_same_eq_map fun _ => ?_
  cases args with
  | nil => rfl
  | cons v rest => cases v <;> rfl

theorem window_value (s : List Char) (start stop : Value) :
    window s (ρ.value start) (ρ.value stop) = window s start stop := by
  unfold window
  rw [ρ.sliceBound_value, ρ.sliceBound_value]

theorem searchArguments_value (name : String) : searchArguments name (args.map ρ.value) =
    (searchArguments name args).map (Prod.map ρ.value (Prod.map ρ.value ρ.value)) := by
  match args with
  | [] => rfl
  | [a] => rfl
  | [a, b] => rfl
  | [a, b, c] => rfl
  | a :: b :: c :: d :: rest =>
    change Except.error (Fault.type (name ++ "() takes at most 3 arguments (" ++
      toString (List.map ρ.value (a :: b :: c :: d :: rest)).length ++ " given)")) = _
    rw [List.length_map]
    rfl

theorem find_value (name : String) (fromBack : Bool) (s : List Char) :
    find name fromBack s (args.map ρ.value) = find name fromBack s args := by
  unfold find
  rw [searchArguments_value]
  cases searchArguments name args with
  | error f => rfl
  | ok given =>
    obtain ⟨part, start, stop⟩ := given
    change (window s (ρ.value start) (ρ.value stop) >>= _) = (window s start stop >>= _)
    rw [window_value, wantText_value]

theorem count_value (s : List Char) : count s (args.map ρ.value) = count s args := by
  unfold count
  rw [searchArguments_value]
  cases searchArguments "count" args with
  | error f => rfl
  | ok given =>
    obtain ⟨part, start, stop⟩ := given
    change (window s (ρ.value start) (ρ.value stop) >>= _) = (window s start stop >>= _)
    rw [window_value, wantText_value]

theorem isAtEnd_value (name : String) (front : Bool) (s : List Char) :
    isAtEnd name front s (args.map ρ.value) = isAtEnd name front s args := by
  unfold isAtEnd
  rw [searchArguments_value]
  cases searchArguments name args with
  | error f => rfl
  | ok given =>
    obtain ⟨part, start, stop⟩ := given
    change (window s (ρ.value start) (ρ.value stop) >>= _) = (window s start stop >>= _)
    rw [window_value]
    refine congrArg _ (funext fun w => ?_)
    have hother := congrArg (fun kind => (Except.error (Fault.type
      (name ++ " first arg must be str or a tuple of str, not " ++ kind)) : Except Fault Bool))
      (ρ.kindName_value part)
    cases part with
    | str p => rfl
    | tuple parts =>
      rw [ρ.value_tuple]
      dsimp only
      rw [Value.anyM_map]
      refine congrArg (fun p => Value.anyM p parts) (funext fun v => ?_)
      have hkind := congrArg (fun kind => (Except.error (Fault.type
        ("tuple for " ++ name ++ " must only contain str, not " ++ kind)) : Except Fault Bool))
        (ρ.kindName_value v)
      cases v with
      | str p => rfl
      | _ => exact hkind
    | _ => exact hother

theorem replaceArgument_value (i : Nat) (v : Value) :
    replaceArgument i (ρ.value v) = replaceArgument i v := by
  have hkind := congrArg (fun kind => (Except.error (Fault.type
    ("replace() argument " ++ toString i ++ " must be str, not " ++ kind)) :
      Except Fault (List Char))) (ρ.shortKindName_value v)
  cases v with
  | str s => rfl
  | _ => exact hkind

theorem replace_value (s : List Char) :
    replace s (args.map ρ.value) = (replace s args).map ρ.value := by
  unfold replace
  rw [Arguments.between_value, ρ.getD_values args 0 rfl, ρ.getD_values args 1 rfl,
    ρ.getD_values args 2 rfl, replaceArgument_value, replaceArgument_value,
    Arguments.integer_value]
  refine Except.bind_same_eq_map fun _ => Except.bind_same_eq_map fun old => ?_
  exact Except.bind_same_eq_map fun new => Except.bind_same_eq_map fun limit => rfl

end TextMethod

namespace Host

open Stencil.Host

theorem path_value : path (args.map ρ.value) (ρ.bindings keywords) =
    (path args keywords).map ρ.value := by
  match keywords, args with
  | [], [] => rfl
  | [], [v] => rfl
  | [], v :: w :: rest =>
    change Except.error (Fault.type ("url() takes from 0 to 1 positional arguments but " ++
      toString (List.map ρ.value (v :: w :: rest)).length ++ " were given")) = _
    rw [List.length_map]
    rfl
  | (k, v) :: rest, args =>
    change (if k ≠ "path" then _ else if !(args.map ρ.value).isEmpty then _ else _) =
      (if k ≠ "path" then _ else if !args.isEmpty then _ else _ : Except _ _).map _
    rw [List.isEmpty_map]
    split
    · rfl
    · split
      · rfl
      · cases rest <;> rfl

theorem url_value : url (args.map ρ.value) (ρ.bindings keywords) =
    (url args keywords).map ρ.value := by
  refine Except.bind_eq_map (path_value ρ args keywords) fun v => ?_
  have hkind := congrArg (fun kind => (Except.error (Fault.missingAttribute
    ("'" ++ kind ++ "' object has no attribute 'lstrip'")) : Except Fault Value))
    (ρ.kindName_value v)
  cases v with
  | str s => rfl
  | _ => exact hkind

theorem fails_value (title : String) (f : Fault) :
    fails title f (ρ.bindings keywords) = (fails title f keywords).map ρ.value := by
  cases keywords <;> rfl

end Host

def boundCall (call : Closure.Call) : Closure.Call :=
  ⟨ρ.bindings call.bound, call.rest.map ρ.value, ρ.bindings call.spare⟩

namespace Closure

variable (c : Closure)

theorem isSome_get? (b : Bindings) (key : String) :
    ((ρ.bindings b).get? key).isSome = (b.get? key).isSome := by
  rw [ρ.bindings_get?, Option.isSome_map]

theorem bindKeyword_value (bound spare : Bindings) (key : String) (v : Value) :
    (ρ.closure c).bindKeyword (ρ.bindings bound) (ρ.bindings spare) key (ρ.value v) =
      (c.bindKeyword bound spare key v).map (Prod.map ρ.bindings ρ.bindings) := by
  unfold Closure.bindKeyword
  rw [show (ρ.closure c).nameable = c.nameable from rfl]
  cases c.nameable.find? fun p => Closure.label p = key with
  | none =>
    refine congrArg Except.ok (congrArg (Prod.mk _) ?_)
    exact (ρ.bindings_append spare [(key, v)]).symm
  | some p =>
    dsimp only
    rw [isSome_get?]
    split
    · rfl
    · refine congrArg Except.ok (congrArg (·, ρ.bindings spare) ?_)
      exact (ρ.bindings_append bound [(p, v)]).symm

theorem misplaced_value (key : String) :
    (ρ.closure c).misplaced (ρ.bindings keywords) key = c.misplaced keywords key := by
  unfold Closure.misplaced
  simp only [isSome_get?]
  rfl

theorem tooMany_value (given : Nat) (bound : Bindings) :
    (ρ.closure c).tooMany given (ρ.bindings bound) = c.tooMany given bound := by
  have hlength : (ρ.closure c).defaults.length = c.defaults.length := List.length_map ρ.value
  have hempty : (ρ.closure c).defaults.isEmpty = c.defaults.isEmpty := List.isEmpty_map
  unfold Closure.tooMany
  simp only [isSome_get?, hlength, hempty]
  rfl

theorem placeDefaults_value : (ρ.closure c).placeDefaults = ρ.bindings c.placeDefaults := by
  unfold Closure.placeDefaults closure bindings
  dsimp only
  rw [List.length_map, List.zip_map_right]
  rfl

theorem entriesOf_value (names : List String) (b : Bindings) :
    (names.filterMap fun p => ((ρ.bindings b).get? p).map (p, ·)) =
      ρ.bindings (names.filterMap fun p => (b.get? p).map (p, ·)) := by
  unfold bindings
  rw [List.map_filterMap]
  refine congrArg names.filterMap (funext fun p => ?_)
  change ((ρ.bindings b).get? p).map _ = _
  rw [ρ.bindings_get?, Option.map_map, Option.map_map]
  rfl

theorem fillDefaults_value (kind : String) (names : List String) (defaults bound : Bindings) :
    (ρ.closure c).fillDefaults kind names (ρ.bindings defaults) (ρ.bindings bound) =
      (c.fillDefaults kind names defaults bound).map ρ.bindings := by
  have hisNone (b : Bindings) (p : String) :
      ((ρ.bindings b).get? p).isNone = (b.get? p).isNone := by
    rw [ρ.bindings_get?, Option.isNone_map]
  unfold Closure.fillDefaults
  simp only [hisNone, entriesOf_value]
  split
  · exact congrArg Except.ok (ρ.bindings_append bound _).symm
  · rfl

theorem takeKeyword_value (taken : Bindings × Bindings) (given : String × Value) :
    (ρ.closure c).takeKeyword (ρ.bindings keywords) (Prod.map ρ.bindings ρ.bindings taken)
      (ρ.binding given) =
        (c.takeKeyword keywords taken given).map (Prod.map ρ.bindings ρ.bindings) := by
  refine Except.bind_eq_map (bindKeyword_value ρ c taken.1 taken.2 given.1 given.2) fun taken => ?_
  rw [misplaced_value, Prod.map_snd, ρ.bindings_isEmpty]
  change (if c.parameters.restKeywords.isNone && _ then _ else _) = _
  split <;> rfl

theorem bind_value : (ρ.closure c).bind (args.map ρ.value) (ρ.bindings keywords) =
    (c.bind args keywords).map ρ.boundCall := by
  have hplaces : (ρ.closure c).places.zip (args.map ρ.value) =
      ρ.bindings (c.places.zip args) := List.zip_map_right ..
  unfold Closure.bind
  dsimp only
  rw [hplaces]
  refine Except.bind_eq_map (List.foldlM_eq_map (takeKeyword_value ρ keywords c) keywords
    (c.places.zip args, [])) fun taken => ?_
  obtain ⟨bound, spare⟩ := taken
  dsimp only [Prod.map]
  rw [List.length_map, tooMany_value, placeDefaults_value, fillDefaults_value]
  change (if (args.length > c.places.length && c.parameters.rest.isNone) = true then _ else _) = _
  split
  · rfl
  · refine Except.bind_eq_map rfl fun bound => ?_
    refine Except.bind_eq_map (fillDefaults_value ρ c ..) fun bound => congrArg Except.ok ?_
    unfold Closure.inOrder
    rw [← List.map_drop, entriesOf_value]
    rfl

end Closure

end Renaming

end Stencil
