import Stencil.Evaluation.Builtins
import Stencil.Evaluation.Host
import Stencil.Evaluation.Methods
import Stencil.Proofs.SafeIteration

/-!
# Builtin functions and methods are safe

Functions and methods deliver numbers and texts, parts of their arguments, or new containers; the
containers that they change keep their kind.
-/

namespace Stencil

def Delivers {α : Type} (P : α → Prop) (e : Except Fault α) : Prop := ∀ a, e = .ok a → P a

namespace Delivers

variable {α β : Type} {P : α → Prop} {e : Except Fault β} {k : β → Except Fault α}

theorem pure {a : α} (ha : P a) : Delivers P (.ok a) := fun _ h => Except.ok.inj h ▸ ha

theorem error {f : Fault} : Delivers P (.error f) := nofun

theorem bind (hk : ∀ b, Delivers P (k b)) : Delivers P (e >>= k) := by
  intro a h
  obtain ⟨b, -, hb⟩ := Except.ok_of_bind h
  exact hk b a hb

end Delivers

variable {l : Licence} {h : Heap} {args : List Value} {keywords : Bindings} {v w : Value}

section Arguments

variable (hargs : Suits h args)

include hargs

theorem suits_headD (hw : Suits h w) : Suits h (args.headD w) := by
  cases args with
  | nil => exact hw
  | cons v args => exact (suits_cons.mp hargs).1

theorem suits_argument (i : Nat) : Suits h args[i]? := by
  cases hi : args[i]? with
  | none => exact suits_none
  | some v => exact suits_some.mpr (suits_list_iff.mp hargs v (List.mem_of_getElem? hi))

theorem suits_getD (i : Nat) (hw : Suits h w) : Suits h (args.getD i w) := by
  rw [List.getD_eq_getElem?_getD]
  have hi := suits_argument hargs i
  cases hitem : args[i]? with
  | none => exact hw
  | some v =>
    rw [hitem] at hi
    exact suits_some.mp hi

theorem one_suits {title : String} : Delivers (Suits h) (Arguments.one title args) := by
  unfold Arguments.one
  split
  · exact .pure (suits_cons.mp hargs).1
  · exact .error

end Arguments

theorem suits_keyword (hkeywords : Suits h keywords) (name : String) :
    Suits h (keywords.get? name) := by
  cases hname : keywords.get? name with
  | none => exact suits_none
  | some v => exact suits_some.mpr (lookup_suits hkeywords hname)

theorem suits_or {o o' : Option Value} (ho : Suits h o) (ho' : Suits h o') : Suits h (o.or o') := by
  cases o with
  | none => exact ho'
  | some v => exact ho

theorem suits_optionGetD {o : Option Value} (ho : Suits h o) (hw : Suits h w) :
    Suits h (o.getD w) := by
  cases o with
  | none => exact hw
  | some v => exact suits_some.mp ho

namespace Builtins

theorem range_suits : Delivers (Suits h) (range args keywords) := by
  refine .bind fun _ => .bind fun _ => .bind fun ns => ?_
  split
  · exact .pure (suits_rangeValue _ _ _)
  · exact .pure (suits_rangeValue _ _ _)
  · split
    · exact .bind fun _ => .pure (suits_rangeValue _ _ _)
    · exact .pure (suits_rangeValue _ _ _)
  · exact .pure suits_noneValue

theorem readInteger_suits (base : Nat) (s : List Char) (shown : String) :
    Delivers (Suits h) (readInteger base s shown) := by
  unfold readInteger
  dsimp only
  split
  · split
    · exact .error
    · exact .pure (suits_intValue _)
  · exact .error

theorem integerOf_suits : Delivers (Suits h) (integerOf v) := by
  unfold integerOf
  split
  · exact .pure (suits_intValue _)
  · exact .pure (suits_intValue _)
  · split
    · exact .pure (suits_intValue _)
    · split
      · exact .error
      · exact .error
  · exact readInteger_suits _ _ _
  · exact readInteger_suits _ _ _
  · exact .error

theorem int_suits : Delivers (Suits h) (int args keywords) := by
  refine .bind fun _ => .bind fun _ => ?_
  split
  · exact .pure (suits_intValue _)
  · exact .error
  · exact integerOf_suits
  · refine .bind fun base => ?_
    dsimp only
    split
    · refine .bind fun _ => ?_
      split
      · exact readInteger_suits _ _ _
      · exact readInteger_suits _ _ _
      · exact .error
    · split
      · exact readInteger_suits _ _ _
      · exact readInteger_suits _ _ _
      · exact .error

theorem floatFrom_suits (s : List Char) (shown : String) :
    Delivers (Suits h) (floatFrom s shown) := by
  unfold floatFrom
  split
  · exact .pure (suits_floatValue _)
  · exact .error

theorem float_suits : Delivers (Suits h) (float args keywords) := by
  refine .bind fun _ => .bind fun _ => ?_
  split
  · exact .pure (suits_floatValue _)
  · split
    · exact .bind fun _ => .pure (suits_floatValue _)
    · exact .pure (suits_floatValue _)
    · exact floatFrom_suits _ _
    · exact floatFrom_suits _ _
    · exact .error

theorem abs_suits : Delivers (Suits h) (abs args keywords) := by
  refine .bind fun _ => .bind fun v => ?_
  split
  · exact .pure (suits_intValue _)
  · exact .pure (suits_floatValue _)
  · exact .pure (suits_floatValue _)
  · exact .error

theorem rounded_suits (digits : Option Value) : Delivers (Suits h) (rounded v digits) := by
  unfold rounded
  split
  · exact .pure (suits_intValue _)
  · exact .bind fun _ => .pure (suits_intValue _)
  · split
    · exact .pure (suits_intValue _)
    · split
      · exact .error
      · exact .error
  · refine .bind fun _ => ?_
    dsimp only
    split
    · exact .bind fun _ => .pure (suits_floatValue _)
    · exact .pure (suits_floatValue _)
  · exact .error

theorem round_suits : Delivers (Suits h) (round args keywords) := by
  refine .bind fun _ => ?_
  split
  · exact .bind fun _ => rounded_suits _
  · exact .error

theorem enumerateArguments_suits (hargs : Suits h args) (hkeywords : Suits h keywords) :
    Delivers (Suits h) (enumerateArguments args keywords) := by
  refine .bind fun _ => ?_
  split
  · exact .error
  · exact .pure (suits_pair.mpr ⟨(suits_cons.mp hargs).1, suits_none⟩)
  · obtain ⟨hv, hrest⟩ := suits_cons.mp hargs
    exact .pure (suits_pair.mpr ⟨hv, suits_some.mpr (suits_cons.mp hrest).1⟩)
  · split
    · have hstart := (suits_pair.mp (suits_cons.mp hkeywords).1).2
      exact .pure (suits_pair.mpr ⟨(suits_cons.mp hargs).1, suits_some.mpr hstart⟩)
    · exact .error
  · split
    · rename_i hv
      refine .bind fun _ => .pure (suits_pair.mpr ⟨?_, suits_keyword hkeywords _⟩)
      exact lookup_suits hkeywords hv
    · exact .error
  · exact .pure (suits_pair.mpr ⟨suits_noneValue, suits_none⟩)

end Builtins

namespace Safe

theorem delivered {α : Type} [Refers α] {e : Except Fault α} (he : Delivers (Suits h) e) :
    Safe l h (Eval.ofExcept e) := ofExcept (he _)

section Sorting

variable {α : Type} {before : α → α → Eval Bool}
  (hbefore : ∀ {h : Heap} (a b : α), Safe l h (before a b))

include hbefore

theorem runLength (falling : Bool) (previous : α) (rest : List α) :
    Safe l h (Sorting.runLength before falling previous rest) := by
  induction rest generalizing h previous with
  | nil => exact pure (suits_nat _)
  | cons a rest ih =>
    refine bind (hbefore a previous) fun _ _ => ?_
    split
    · exact bind (ih a) fun _ _ => pure (suits_nat _)
    · exact pure (suits_nat _)

theorem place (items : Array α) (a : α) (low fuel high : Nat) :
    Safe l h (Sorting.place before items a low fuel high) := by
  induction fuel generalizing h low high with
  | zero =>
    unfold Sorting.place
    exact pure (suits_nat _)
  | succ fuel ih =>
    unfold Sorting.place
    split
    · dsimp only
      split
      · exact pure (suits_nat _)
      · refine bind (hbefore a _) fun _ _ => ?_
        split
        · exact ih _ _
        · exact ih _ _
    · exact pure (suits_nat _)

variable [Refers α]

omit hbefore in
theorem suits_insertIdx {items : Array α} {a : α} (hi : Suits h items) (ha : Suits h a) (i : Nat) :
    Suits h (items.insertIdxIfInBounds i a) := by
  refine suits_array_iff.mpr fun b hb => ?_
  unfold Array.insertIdxIfInBounds at hb
  split at hb
  · rcases Array.mem_insertIdx.mp hb with rfl | hold
    · exact ha
    · exact suits_array_iff.mp hi b hold
  · exact suits_array_iff.mp hi b hb

theorem sort {items : List α} (hi : Suits h items) : Safe l h (Sorting.sort before items) := by
  unfold Sorting.sort
  split
  · rename_i a b rest
    refine bind (hbefore b a) fun hl _ => bind (runLength hbefore _ b rest) fun {h' n} hl' _ => ?_
    have hi' := (hi.after hl).after hl'
    have hpart {part : List α} (hpart : ∀ c ∈ part, c ∈ a :: b :: rest) : Suits h' part :=
      suits_list_iff.mpr fun c hc => suits_list_iff.mp hi' c (hpart c hc)
    have hfront : Suits h' ((a :: b :: rest).take (n + 2)) :=
      hpart fun c hc => List.mem_of_mem_take hc
    have hbehind : Suits h' ((a :: b :: rest).drop (n + 2)) :=
      hpart fun c hc => List.mem_of_mem_drop hc
    refine bind (foldlM (α := Array α) ?_ fun {h'' c sorted} hl'' hc hsorted => ?_) fun _ hsorted =>
      pure (suits_toList.mpr hsorted)
    · split
      · refine suits_toArray.mpr (hpart fun c hc => ?_)
        exact List.mem_of_mem_take (List.mem_reverse.mp hc)
      · exact suits_toArray.mpr hfront
    · have hc' := (suits_list_iff.mp hbehind c hc).after hl''
      exact bind (place hbefore _ _ _ _ _) fun hl₃ _ =>
        pure (suits_insertIdx (hsorted.after hl₃) (hc'.after hl₃) _)
  · exact pure hi

end Sorting

open Stencil.Builtins

theorem isBefore (op : Value.Order) (v w : Value) : Safe l h (Builtins.isBefore op v w) :=
  .get fun _ => ofExcept fun _ => suits_bool _

theorem len : Safe l h (Builtins.len args keywords) :=
  compute fun _ => compute fun _ => .get fun _ => compute fun _ => pure (suits_intValue _)

theorem str : Safe l h (Builtins.str args keywords) := by
  refine compute fun _ => ?_
  dsimp only
  split
  · exact pure (suits_strValue _)
  · exact .get fun _ => compute fun _ => pure (suits_strValue _)
  · exact compute fun _ => pure (suits_strValue _)

theorem bool : Safe l h (Builtins.bool args keywords) :=
  compute fun _ => .get fun _ => pure (suits_boolValue _)

theorem putNamed {r : Ref} (ho : h.Offers .dict r) (hkeywords : Suits h keywords) :
    Safe l h (keywords.forM fun (k, v) => do
      let h ← MonadState.get
      Eval.write r (.dict (← Eval.ofExcept (Value.putEntry h (h.dictEntries r) (.str k) v)))) := by
  refine forM fun {h' e} hl he => ?_
  have hv := (suits_pair.mp ((suits_list_iff.mp hkeywords e he).after hl)).2
  exact putInto (hl.offers ho) (suits_strValue _) hv

theorem enumerate (hargs : Suits h args) (hkeywords : Suits h keywords) :
    Safe l h (Builtins.enumerate args keywords) := by
  refine compute fun {given} hgiven => compute fun _ => ?_
  have hv := (suits_pair.mp (enumerateArguments_suits hargs hkeywords _ hgiven)).1
  exact bind (toIterator hv) fun _ hit => newIterator hit

theorem zip (hargs : Suits h args) : Safe l h (Builtins.zip args keywords) := by
  refine compute fun _ => .get fun _ => ?_
  refine bind (mapM fun {h' v} hl hv => ?_) fun _ hinner => newIterator hinner
  exact toIterator ((suits_list_iff.mp hargs v hv).after hl)

theorem reversed (hargs : Suits h args) : Safe l h (Builtins.reversed args keywords) := by
  refine compute fun _ => .get fun _ => ?_
  have hv := suits_headD hargs suits_noneValue
  dsimp only
  generalize args.headD .none = v at hv ⊢
  have hitems {items : List Value} (hi : Suits h items) :
      Safe l h (Eval.newIterator .reversed (.items items.reverse)) := by
    refine newIterator (c := .items _) (suits_list_iff.mpr fun w hw => ?_)
    exact suits_list_iff.mp hi w (List.mem_reverse.mp hw)
  split
  · exact newIterator hv
  · exact newIterator hv
  · exact newIterator hv
  · exact newIterator (suits_of_isEmpty rfl)
  · exact hitems (suits_strValues (fun c : Char => c.toString) _)
  · exact hitems ((suits_tupleValue _).mp hv)
  · exact hitems (suits_intValues (fun c : UInt8 => c.toNat) _)
  · exact hitems suits_nil
  · exact fault _
  · exact fault _

section Builtins

variable {ev : Evaluator} (hev : ev.IsSafe l)

include hev

theorem list (hargs : Suits h args) : Safe l h (Builtins.list ev args keywords) := by
  refine compute fun _ => ?_
  split
  · exact newList (suits_of_isEmpty rfl)
  · exact bind (collect hev (suits_cons.mp hargs).1) fun _ hitems => newList hitems

theorem dict (hargs : Suits h args) (hkeywords : Suits h keywords) :
    Safe l h (Builtins.dict ev args keywords) := by
  refine compute fun _ => ?_
  refine allocate_bind nofun (suits_of_isEmpty rfl) fun {h' r} hl ho => ?_
  have hdone {h'' : Heap} (hl' : l.Leads h' h'') : Safe l h'' (do
      keywords.forM fun (k, v) => do
        let h ← MonadState.get
        Eval.write r (.dict (← Eval.ofExcept (Value.putEntry h (h.dictEntries r) (.str k) v)))
      return Value.dict r) := by
    refine bind (putNamed (hl'.offers ho) (hkeywords.after (hl.trans hl'))) fun hl'' _ => ?_
    exact pure ((suits_dictValue r).mpr (hl''.offers (hl'.offers ho)))
  dsimp only
  split
  · rename_i v hv
    have hfits : Suits h v := suits_list_iff.mp hargs v (List.mem_of_mem_head? hv)
    exact bind (updateDict hev ho (hfits.after hl)) fun hl' _ => hdone hl'
  · exact hdone (.refl l h')

theorem keyOf {key : Option Value} (hkey : Suits h key) (hv : Suits h v) :
    Safe l h (Builtins.keyOf ev key v) := by
  unfold Builtins.keyOf
  split
  · exact pure hv
  · exact pure hv
  · exact hev.call (suits_some.mp hkey) (suits_cons.mpr ⟨hv, suits_nil⟩) suits_nil

theorem sorted (hargs : Suits h args) (hkeywords : Suits h keywords) :
    Safe l h (Builtins.sorted ev args keywords) := by
  refine compute fun _ => ?_
  refine bind (collect hev (suits_headD hargs suits_noneValue)) fun {h' items} hl hitems => ?_
  refine compute fun _ => compute fun _ => ?_
  have hkey := (suits_keyword hkeywords "key").after hl
  refine bind (mapM fun {h'' v} hl' hv => ?_) fun _ hpairs => ?_
  · have hv' := (suits_list_iff.mp (suits_toList.mpr hitems) v hv).after hl'
    exact bind (keyOf hev (hkey.after hl') hv') fun hl'' hk =>
      pure (suits_pair.mpr ⟨hk, hv'.after hl''⟩)
  have hdone {h : Heap} {pairs : List (Value × Value)} (hp : Suits h pairs) :
      Safe l h (Eval.newList (pairs.map (·.2)).toArray) := by
    refine newList (suits_toArray.mpr (suits_list_iff.mpr fun v hv => ?_))
    obtain ⟨e, he, rfl⟩ := List.mem_map.mp hv
    exact (suits_pair.mp (suits_list_iff.mp hp e he)).2
  have hreverse {h : Heap} {pairs : List (Value × Value)} (hp : Suits h pairs) :
      Suits h pairs.reverse :=
    suits_list_iff.mpr fun e he => suits_list_iff.mp hp e (List.mem_reverse.mp he)
  dsimp only
  split
  · exact bind (sort (fun a b => isBefore _ _ _) hpairs) fun _ hp => hdone hp
  · refine bind (map (sort (fun a b => isBefore _ _ _) (hreverse hpairs)) ?_) fun _ hp => hdone hp
    exact fun _ hp => hreverse hp

theorem extreme (title : String) (op : Value.Order) (hargs : Suits h args)
    (hkeywords : Suits h keywords) : Safe l h (Builtins.extreme ev title op args keywords) := by
  have hcandidates : Suits h (candidates args) := by
    unfold candidates
    split
    · exact (suits_cons.mp hargs).1
    · exact (suits_tupleValue _).mpr hargs
  have husual := suits_keyword hkeywords "default"
  have hkey := suits_keyword hkeywords "key"
  refine fault_or (compute fun _ => fault_or ?_)
  refine bind (toIterator hcandidates) fun hl hit => ?_
  refine bind (walk (σ := Option (Value × Value)) hev hit ?_ _ suits_none) fun hl' hbest => ?_
  · intro h' best v hl' hbest hv
    refine bind (keyOf hev ((hkey.after hl).after hl') hv) fun {h'' k} hl'' hk => ?_
    have hfound := suits_pair.mpr ⟨hk, hv.after hl''⟩
    cases best with
    | none => exact pure (suits_yield.mpr (suits_some.mpr hfound))
    | some best =>
      refine bind (isBefore _ _ _) fun {_ better} hl₃ _ => ?_
      cases better with
      | true => exact pure (suits_yield.mpr (suits_some.mpr (hfound.after hl₃)))
      | false => exact pure (suits_yield.mpr ((hbest.after hl'').after hl₃))
  · split
    · exact pure (suits_pair.mp (suits_some.mp hbest)).2
    · rename_i husual'
      rw [husual'] at husual
      exact pure (((suits_some.mp husual).after hl).after hl')
    · exact fault _

theorem sum (hargs : Suits h args) (hkeywords : Suits h keywords) :
    Safe l h (Builtins.sum ev args keywords) := by
  have hgiven := suits_or (suits_argument hargs 1) (suits_keyword hkeywords "start")
  have hstart := suits_optionGetD hgiven (suits_intValue 0)
  refine fault_or (compute fun _ => ?_)
  refine bind (toIterator (suits_headD hargs suits_noneValue)) fun {h' it} hl hit => ?_
  have hwalk : Safe l h' (ev.walk it (fun total v => do
      return ForInStep.yield (← Value.operate .add total v)) Evaluator.mostItems
      (((args[1]?).or (keywords.get? "start")).getD (.int 0))) := by
    refine walk hev hit (fun _ ht hv => ?_) _ (hstart.after hl)
    exact bind (operate .add ht hv) fun _ hsum => pure (suits_yield.mpr hsum)
  dsimp only
  split
  · exact fault_bind
  · exact fault_bind
  · exact hwalk

theorem callBuiltin (b : Builtin) (hargs : Suits h args) (hkeywords : Suits h keywords) :
    Safe l h (Builtins.call ev b args keywords) := by
  cases b with
  | range => exact delivered range_suits
  | len => exact len
  | str => exact str
  | int => exact delivered int_suits
  | float => exact delivered float_suits
  | bool => exact bool
  | list => exact list hev hargs
  | dict => exact dict hev hargs hkeywords
  | enumerate => exact enumerate hargs hkeywords
  | zip => exact zip hargs
  | sorted => exact sorted hev hargs hkeywords
  | reversed => exact reversed hargs
  | min => exact extreme hev "min" .less hargs hkeywords
  | max => exact extreme hev "max" .greater hargs hkeywords
  | sum => exact sum hev hargs hkeywords
  | abs => exact delivered abs_suits
  | round => exact delivered round_suits

end Builtins

end Safe

end Stencil
