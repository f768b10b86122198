import Stencil.Proofs.LocalAtoms
import Stencil.Proofs.Bracketing

/-!
# Goals are local

All goals read alike from windows on lexemes of the same kinds, at any depths that are enough for
the window. The induction is on the depth. Replacement fields of string literals are texts of their
own, shorter than the literal; their lexemes are a window in front of nothing.
-/

namespace Stencil.Expr.Interpolation

mutual

/-- The texts of the expressions in the parts of an interpolated literal. -/
def codesOf : List Part → List (List Char)
  | [] => []
  | p :: ps => codesOfPart p ++ codesOf ps

def codesOfPart : Part → List (List Char)
  | .literal _ => []
  | .field code _ _ none => [code]
  | .field code _ _ (some format) => code :: codesOf format

end

theorem literalText_length {raw top cut : Bool} {fuel : Nat} {s text rest : List Char}
    (h : literalText raw top fuel s = some (text, cut, rest)) : rest.length ≤ s.length := by
  induction fuel generalizing s text cut rest with
  | zero => cases h
  | succ fuel ih =>
    have hgo {kept t : List Char} (ht : t.length ≤ s.length)
        (h : ((literalText raw top fuel t).map fun r => (kept ++ r.1, r.2.1, r.2.2)) =
          some (text, cut, rest)) : rest.length ≤ s.length := by
      obtain ⟨⟨text, cut, rest⟩, hrun, heq⟩ := Option.map_eq_some_iff.mp h
      cases heq
      exact Nat.le_trans (ih hrun) ht
    have hbrace {kept t : List Char} {b : Char} (ht : t.length < s.length)
        (h : (if top && t.head? = some b then some (kept ++ [b], true, t.tail)
          else if top && b = '}' then none
          else some (kept, false, b :: t)) = some (text, cut, rest)) : rest.length ≤ s.length := by
      split at h
      · cases h
        rw [List.length_tail]
        omega
      · split at h
        · cases h
        · cases h
          exact ht
    cases s with
    | nil =>
      cases h
      exact Nat.le_refl _
    | cons c cs =>
      unfold literalText at h
      split at h
      · split at h
        · exact hgo (by simp) h
        · exact hgo (by simp only [List.length_drop, List.length_cons]; omega) h
        · exact hgo (by simp only [List.length_cons]; omega) h
        · dsimp only at h
          split at h
          · exact hbrace (by simp only [List.length_cons]; omega) h
          · exact hgo (by simp only [List.length_cons]; omega) h
      · split at h
        · exact hbrace (by simp) h
        · exact hgo (by simp) h

theorem codeText_eq {fuel : Nat} {st : Scan} {s code rest : List Char}
    (h : codeText fuel st s = some (code, rest)) : s = code ++ rest ∧ rest ≠ [] := by
  induction fuel generalizing st s code rest with
  | zero => cases h
  | succ fuel ih =>
    cases s with
    | nil => cases h
    | cons c cs =>
      have hkeep {n : Nat} {st : Scan}
          (h : ((codeText fuel st ((c :: cs).drop n)).map fun r => ((c :: cs).take n ++ r.1, r.2)) =
            some (code, rest)) : c :: cs = code ++ rest ∧ rest ≠ [] := by
        obtain ⟨⟨code, rest⟩, hrun, heq⟩ := Option.map_eq_some_iff.mp h
        cases heq
        obtain ⟨heq, hne⟩ := ih hrun
        refine ⟨?_, hne⟩
        rw [List.append_assoc, ← heq, List.take_append_drop]
      unfold codeText at h
      dsimp only at h
      split at h
      · cases h
      split at h
      · split at h
        · exact hkeep h
        · exact hkeep h
      split at h
      · exact hkeep h
      split at h
      · exact hkeep h
      split at h
      · exact hkeep h
      split at h
      · exact hkeep h
      split at h
      · cases h
      split at h
      · split at h
        · exact hkeep h
        split at h
        · exact hkeep h
        · cases h
          exact ⟨rfl, List.cons_ne_nil _ _⟩
      split at h
      · split at h
        · exact hkeep h
        · cases h
      · exact hkeep h

@[simp] theorem codesOf_append (ps qs : List Part) : codesOf (ps ++ qs) = codesOf ps ++ codesOf qs := by
  induction ps with
  | nil => rfl
  | cons p ps ih => rw [List.cons_append, codesOf, codesOf, ih, List.append_assoc]

/-- What a field shows of its text, and what follows the mark for it. -/
def shownText (code after : List Char) : Option (List Char) × List Char :=
  match after with
  | '=' :: more =>
    let space := more.takeWhile isSpace
    (some (code ++ '=' :: space), more.drop space.length)
  | _ => (none, after)

/-- How a field converts its value, and what follows the mark for it. -/
def conversionMark (after : List Char) : Option (Option Char × List Char) :=
  match after with
  | '!' :: k :: more => if ['s', 'r', 'a'].contains k then some (some k, more) else none
  | '!' :: [] => none
  | _ => some (none, after)

theorem conversionMark_length {code after rest : List Char} {conversion : Option Char}
    (h : conversionMark (shownText code after).2 = some (conversion, rest)) :
    rest.length ≤ after.length := by
  have hshown : (shownText code after).2.length ≤ after.length := by
    unfold shownText
    split
    · simp only [List.length_drop, List.length_cons]
      omega
    · exact Nat.le_refl _
  refine Nat.le_trans ?_ hshown
  unfold conversionMark at h
  split at h
  · rename_i hmore
    split at h
    · cases h
      rw [hmore, List.length_cons, List.length_cons]
      omega
    · cases h
  · cases h
  · cases h
    exact Nat.le_refl _

theorem parts_codes {raw : Bool} {fuel level : Nat} {s rest : List Char} {ps : List Part}
    (h : parts raw fuel level s = some (ps, rest)) :
    rest.length ≤ s.length ∧ ∀ code ∈ codesOf ps, code.length + 2 + rest.length ≤ s.length := by
  induction fuel generalizing level s rest ps with
  | zero => cases h
  | succ fuel ih =>
    unfold parts at h
    split at h
    · cases h
    rename_i text cut after hliteral
    have hafter := literalText_length hliteral
    have hlead : codesOf (if text.isEmpty then [] else [Part.literal text]) = [] := by
      split <;> rfl
    dsimp only at h
    generalize (if text.isEmpty then [] else [Part.literal text]) = lead at h hlead
    have hmore {part : List Part} {t : List Char} (ht : t.length ≤ s.length)
        (hpart : ∀ code ∈ codesOf part, code.length + 2 + t.length ≤ s.length)
        (h : ((parts raw fuel level t).map fun r => (lead ++ part ++ r.1, r.2)) = some (ps, rest)) :
        rest.length ≤ s.length ∧ ∀ code ∈ codesOf ps, code.length + 2 + rest.length ≤ s.length := by
      obtain ⟨⟨more, rest⟩, hrun, heq⟩ := Option.map_eq_some_iff.mp h
      cases heq
      obtain ⟨hrest, hcodes⟩ := ih hrun
      refine ⟨Nat.le_trans hrest ht, fun code hcode => ?_⟩
      rw [codesOf_append, codesOf_append, hlead, List.nil_append, List.mem_append] at hcode
      dsimp only at hrest ⊢
      rcases hcode with hcode | hcode
      · have hle := hpart code hcode
        omega
      · have hle := hcodes code hcode
        omega
    split at h
    · exact hmore hafter (fun code hcode => absurd hcode List.not_mem_nil) h
    split at h
    · rename_i inside
      rw [List.length_cons] at hafter
      split at h
      · cases h
      split at h
      · cases h
      rename_i code after' hcode
      obtain ⟨rfl, hne⟩ := codeText_eq hcode
      rw [List.length_append] at hafter
      split at h
      · cases h
      split at h
      · cases h
      · rename_i conversion spec hconverted
        have hmark : conversionMark (shownText code after').2 = some (conversion, ':' :: spec) :=
          hconverted
        have hspec := conversionMark_length hmark
        rw [List.length_cons] at hspec
        split at h
        · rename_i format more hformat
          obtain ⟨hmore', hcodes⟩ := ih hformat
          rw [List.length_cons] at hmore'
          refine hmore (by omega) (fun code' hcode' => ?_) h
          rw [codesOf, codesOf, List.append_nil, codesOfPart] at hcode'
          rcases List.mem_cons.mp hcode' with rfl | hcode'
          · omega
          · have hle := hcodes code' hcode'
            rw [List.length_cons] at hle
            omega
        · cases h
      · rename_i conversion more hconverted
        have hmark : conversionMark (shownText code after').2 = some (conversion, '}' :: more) :=
          hconverted
        have hspec := conversionMark_length hmark
        rw [List.length_cons] at hspec
        refine hmore (by omega) (fun code' hcode' => ?_) h
        cases List.mem_singleton.mp hcode'
        omega
      · cases h
    · cases h
      exact ⟨hafter, fun code hcode => by rw [hlead] at hcode; cases hcode⟩

end Stencil.Expr.Interpolation

namespace Stencil.Grammar

open Stencil.Expr Stencil.Expr.Interpolation
open Stencil.Grammar.Parser

mutual

theorem fragmentsOf_congr {parse parse' : Goal → Parser Node} {raw : Bool} :
    ∀ ps : List Part, (∀ code ∈ codesOf ps, fieldExpr parse code = fieldExpr parse' code) →
      fragmentsOf parse raw ps = fragmentsOf parse' raw ps
  | [], _ => rfl
  | p :: ps, h => by
    rw [codesOf] at h
    rw [fragmentsOf, fragmentsOf, fragmentOf_congr p fun code hcode => h code (List.mem_append_left _ hcode),
      fragmentsOf_congr ps fun code hcode => h code (List.mem_append_right _ hcode)]

theorem fragmentOf_congr {parse parse' : Goal → Parser Node} {raw : Bool} :
    ∀ p : Part, (∀ code ∈ codesOfPart p, fieldExpr parse code = fieldExpr parse' code) →
      fragmentOf parse raw p = fragmentOf parse' raw p
  | .literal _, _ => rfl
  | .field code shown conversion none, h => by
    rw [codesOfPart] at h
    simp only [fragmentOf, h code List.mem_cons_self]
  | .field code shown conversion (some format), h => by
    rw [codesOfPart] at h
    simp only [fragmentOf, h code List.mem_cons_self,
      fragmentsOf_congr format fun code hcode => h code (List.mem_cons_of_mem _ hcode)]

end

/-- String literals are read alike if the fields in them are. -/
theorem stringPart_congr {parse parse' : Goal → Parser Node} {style : QuotePrefix} {body : List Char}
    (h : ∀ code, code.length + 2 ≤ body.length → fieldExpr parse code = fieldExpr parse' code) :
    stringPart parse style body = stringPart parse' style body := by
  unfold stringPart
  split
  · cases hsplit : split? style.raw body with
    | none => rfl
    | some ps =>
      refine fragmentsOf_congr ps fun code hcode => h code ?_
      unfold split? at hsplit
      split at hsplit
      · rename_i hparts
        cases hsplit
        obtain ⟨-, hcodes⟩ := parts_codes hparts
        have hle := hcodes code hcode
        omega
      · cases hsplit
  · rfl

section

variable {targets : Bool} {ks : List LexemeKind} {V W : Window} {i m n : Nat} {g : Goal}
  {pending : List Char}

theorem fieldExpr_congr {code : List Char} (h : ∀ ls, lexemes? ('(' :: code ++ [')']) = some ls →
      Alike ⟨ls, [], 0⟩ ⟨ls, [], 0⟩ 0 (parseWithin m .starExpressions)
        (parseWithin n .starExpressions) (Read ⟨ls, [], 0⟩ ⟨ls, [], 0⟩ (ls.map (·.kind)) 0 [])) :
    fieldExpr (parseWithin m) code = fieldExpr (parseWithin n) code := by
  unfold fieldExpr
  cases hls : lexemes? ('(' :: code ++ [')']) with
  | none => rfl
  | some ls =>
    have hcursor : Window.cursor ⟨ls, [], 0⟩ 0 = ⟨ls, 0⟩ := by
      rw [Window.cursor, List.drop_zero, List.append_nil]
      rfl
    have halike := h ls hls
    rw [Alike, hcursor] at halike
    rcases halike with ⟨hl, hr⟩ | ⟨x, y, j, hl, hr, hread⟩
    · simp [hl, hr]
    · simp [hl, hr, hread.expr]

theorem parseWithin_alike (hT : Twins targets ks V W) (hopen : Open ks i pending)
    (hg : pending = [] → Allowed targets g) (hm : 32 * load (ks.drop i) + rank g < m)
    (hn : 32 * load (ks.drop i) + rank g < n) :
    Alike V W i (parseWithin m g) (parseWithin n g) (Read V W ks i pending) := by
  induction m generalizing targets ks V W i n g pending with
  | zero => exact absurd hm (Nat.not_lt_zero _)
  | succ m ih =>
    obtain ⟨n, rfl⟩ : ∃ n', n = n' + 1 := ⟨n - 1, by omega⟩
    have hrank := rank_lt g
    have hB : Below targets ks V W i (rank g) m n := by
      refine ⟨fun j g' pending' hij hlt hopen' hg' => ?_, fun j style body hij hk => ?_, by omega⟩
      · have hrank' := rank_lt g'
        rcases Nat.lt_or_eq_of_le hij with hij | rfl
        · have hload := load_drop_lt hij hopen'.le
          exact ih hT hopen' hg' (by omega) (by omega)
        · have hlt' := hlt rfl
          exact ih hT hopen' hg' (by omega) (by omega)
      · refine stringPart_congr fun code hcode => fieldExpr_congr fun ls hls => ?_
        obtain ⟨hopen', hload⟩ := lexemes?_open hls
        have hinner := load_drop hk
        have hall := load_drop_le ks hij
        have hlength : ('(' :: code ++ [')']).length = code.length + 2 := by simp
        have hstar : rank .starExpressions = 20 := rfl
        rw [hlength] at hload
        rw [weight] at hinner
        have hself : Twins false (ls.map (·.kind)) ⟨ls, [], 0⟩ ⟨ls, [], 0⟩ :=
          ⟨rfl, rfl, .nothing, .nothing⟩
        exact ih hself hopen' (by rintro _ ⟨⟩) (by rw [List.drop_zero]; omega)
          (by rw [List.drop_zero]; omega)
    have hfree (hfree : ¬ (g = .atom ∨ g = .primary ∨ g = .target ∨ g = .targets)) :
        pending = [] → targets = false := by
      intro hpending
      cases htargets : targets with
      | false => rfl
      | true => exact absurd (hg hpending htargets) hfree
    unfold parseWithin
    cases g with
    | expression => exact expressionRule_alike hT hB (hfree (by decide)) hopen (by decide)
    | expressions => exact tupleRule_alike hT hB hopen (by decide) (allowed_of_free (hfree (by decide)) _)
    | named => exact namedRule_alike hT hB hopen (hfree (by decide)) (by decide)
    | starNamed => exact starRule_alike hT hB hopen (hfree (by decide)) (by decide)
    | starExpression => exact starRule_alike hT hB hopen (hfree (by decide)) (by decide)
    | starExpressions =>
      exact tupleRule_alike hT hB hopen (by decide) (allowed_of_free (hfree (by decide)) _)
    | disjunction => exact booleanRule_alike hT hB hopen (hfree (by decide)) (by decide) (by decide)
    | conjunction => exact booleanRule_alike hT hB hopen (hfree (by decide)) (by decide) (by decide)
    | inversion => exact inversionRule_alike hT hB hopen (hfree (by decide)) (by decide)
    | comparison => exact comparisonRule_alike hT hB hopen (hfree (by decide)) (by decide)
    | operation level =>
      exact operationRule_alike hT hB hopen (hfree (by simp)) (Nat.le_refl _)
    | factor => exact factorRule_alike hT hB hopen (hfree (by decide)) (by decide)
    | power => exact powerRule_alike hT hB hopen (hfree (by decide)) (by decide)
    | awaited => exact awaitedRule_alike hT hB hopen (hfree (by decide)) (by decide)
    | primary => exact primaryRule_alike hT hB hopen (fun _ _ => .inl rfl) (by decide)
    | atom => exact atomRule_alike hT hB hopen (by decide)
    | target => exact targetRule_alike hT hB hopen hg (by decide)
    | targets => exact tupleRule_alike hT hB hopen (by decide) fun _ _ => .inr (.inr (.inl rfl))

end

end Stencil.Grammar
