import Stencil.Proofs.LocalBrackets

/-!
# Reading atoms and what is joined to them

The goals meet again in brackets: what they hold is read alike behind the opening bracket, and a
bracket that only groups hands on what was read in it.
-/

namespace Stencil.Grammar

open Stencil.Expr (Lexeme LexemeKind)
open Stencil.Grammar.Parser

def stretches (arguments : List Argument) : List Span :=
  (arguments.filterMap fun
    | .positional e span => some (e, span)
    | _ => none).map (·.2)

def behindCall (parse : Goal → Parser Node) (start fuel : Nat) (node : Node) (stop : Nat)
    (arguments : List Argument) : Parser Node := do
  if !argumentsInOrder arguments false false then failure
  trailers parse start fuel ⟨.call node.expr (positional arguments) (keywords arguments),
    ⟨start, stop⟩, stretches arguments⟩

theorem trailers_succ (parse : Goal → Parser Node) (start fuel : Nat) (node : Node) :
    trailers parse start (fuel + 1) node = (do
      if ← accept "." then
        let name ← identifier
        trailers parse start fuel (Node.of (.attribute node.expr name) start (← get).stop)
      else if ← atSymbol "(" then
        let opening ← startOffset
        let _ ← next
        let arguments ← itemsUntil ")" (argument parse)
        let stop := (← get).stop
        match arguments with
        | [.generator g] =>
          trailers parse start fuel ⟨.call node.expr [g] [], ⟨start, stop⟩, [⟨opening, stop⟩]⟩
        | _ => behindCall parse start fuel node stop arguments
      else if ← accept "[" then
        let index ← subscriptIndex parse
        trailers parse start fuel (Node.of (.subscript node.expr index) start (← get).stop)
      else return node) := rfl

section

variable {targets : Bool} {ks : List LexemeKind} {V W : Window} {i r m n : Nat}
  {pending : List Char} (hT : Twins targets ks V W) (hB : Below targets ks V W i r m n)

theorem Read.whole {e e' : Expr} {j : Nat} {as bs : List Span} (he : e = e') (hij : i < j)
    (hj : Open ks j pending) :
    Read V W ks i pending ⟨e, ⟨V.start i, V.stop j⟩, as⟩ ⟨e', ⟨W.start i, W.stop j⟩, bs⟩ j :=
  ⟨hij, hj, he, i, j, rfl, rfl, .whole i j⟩

include hT hB

theorem trailers_alike {j a b : Nat} {x y : Node} (hread : Read V W ks i pending x y j)
    (ha : ks.length - j < a) (hb : ks.length - j < b) :
    Alike V W j (trailers (parseWithin m) (V.start i) a x)
      (trailers (parseWithin n) (W.start i) b y) (Read V W ks i pending) := by
  induction a generalizing j b x y with
  | zero => exact absurd ha (Nat.not_lt_zero _)
  | succ a ih =>
    obtain ⟨b, rfl⟩ : ∃ b', b = b' + 1 := ⟨b - 1, by omega⟩
    have hij := hread.lt
    have hj := hread.opened
    have hlength {k : LexemeKind} (hk : ks[j]? = some k) : j < ks.length :=
      (List.getElem?_eq_some_iff.mp hk).1
    rw [trailers_succ, trailers_succ]
    refine (hT.accept hj.le (.symbol (by decide))).bind ?_
    rintro _ _ _ (⟨hk⟩ | ⟨hk⟩)
    · have hlt := hlength hk
      refine (hT.identifier (j + 1)).bind ?_
      rintro name _ _ ⟨rfl, ⟨s, hname⟩, rfl⟩
      refine Alike.get.bind ?_
      rintro _ _ _ ⟨rfl, rfl, rfl⟩
      have hnext := (hj.step hk (plain_symbol (by decide) pending)).step hname rfl
      exact ih (.whole (by rw [hread.expr]) (by omega) hnext) (by omega) (by omega)
    refine (hT.atSymbol hj.le (.symbol (by decide))).bind ?_
    rintro _ _ _ (⟨hk⟩ | ⟨hk⟩)
    · have hlt := hlength hk
      refine Alike.startOffset.bind ?_
      rintro _ _ _ ⟨rfl, rfl, rfl⟩
      refine (hT.next hk).bind ?_
      rintro _ _ _ ⟨-, -, rfl⟩
      have hcloser : shift (')' :: pending) (.symbol ")") = some pending := rfl
      have hitems := Alike.itemsUntil hT hcloser (hj.step hk rfl) fun z (hz : j + 1 ≤ z) hzo =>
        argument_alike hT hB (by omega) hzo
      refine hitems.bind ?_
      rintro as bs k ⟨hall, hjk, hopen⟩
      refine Alike.get.bind ?_
      rintro _ _ _ ⟨rfl, rfl, rfl⟩
      have hnext {e e' : Expr} {s t : List Span} (he : e = e') :=
        ih (.whole he (by omega) hopen : Read V W ks i pending ⟨e, _, s⟩ ⟨e', _, t⟩ k)
          (by omega) (by omega : _ < b)
      have hother : Alike V W k
          (behindCall (parseWithin m) (V.start i) a x (V.stop k) as)
          (behindCall (parseWithin n) (W.start i) b y (W.stop k) bs)
          (Read V W ks i pending) := by
        unfold behindCall
        rw [argumentsInOrder_alike hall, positional_alike hall, keywords_alike hall]
        exact .check _ (hnext (by rw [hread.expr]))
      cases hall with
      | nil => exact hother
      | cons hab hall =>
        cases hab with
        | positional e s t | keyword name e => exact hother
        | generator g =>
          cases hall with
          | nil => exact hnext (by rw [hread.expr])
          | cons => exact hother
    refine (hT.accept hj.le (.symbol (by decide))).bind ?_
    rintro _ _ _ (⟨hk⟩ | ⟨hk⟩)
    · have hlt := hlength hk
      refine (subscriptIndex_alike hT hB (by omega) (hj.step hk rfl)).bind ?_
      rintro index _ k ⟨rfl, hjk, hopen⟩
      refine Alike.get.bind ?_
      rintro _ _ _ ⟨rfl, rfl, rfl⟩
      exact ih (.whole (by rw [hread.expr]) (by omega) hopen) (by omega) (by omega)
    · exact .pure hread

theorem primaryRule_alike (hopen : Open ks i pending) (hatom : pending = [] → Allowed targets .atom)
    (hr : 1 < r) :
    Alike V W i (primaryRule (parseWithin m)) (primaryRule (parseWithin n))
      (Read V W ks i pending) := by
  unfold primaryRule
  refine Alike.startOffset.bind ?_
  rintro _ _ _ ⟨rfl, rfl, rfl⟩
  refine (hB.goals i .atom pending (Nat.le_refl i) (fun _ => hr) hopen hatom).bind ?_
  rintro x y j hread
  refine Alike.get.bind ?_
  rintro _ _ _ ⟨rfl, rfl, rfl⟩
  have hlength {V : Window} (hV : V.kinds = ks) : ks.length - j < (V.cursor j).rest.length + 1 := by
    simp only [Window.cursor, List.length_append, List.length_drop, Window.length_kinds hV]
    omega
  exact trailers_alike hT hB hread (hlength hT.left) (hlength hT.right)

end

/-- What was read behind an opening parenthesis at the place `x`, up to behind the closing one:
an expression to which the parentheses belong, or one that they only group. -/
inductive Enclosed (V W : Window) (ks : List LexemeKind) (x : Nat) (pending : List Char) :
    Node × Bool → Node × Bool → Nat → Prop
  | made {e e' : Expr} {j : Nat} (he : e = e') (hlt : x < j) (hj : Open ks j pending) :
      Enclosed V W ks x pending (Node.of e 0 (V.stop j), false) (Node.of e' 0 (W.stop j), false) j
  | grouped {a b : Node} {j : Nat} (hread : Read V W ks x (')' :: pending) a b j)
      (hk : ks[j]? = some (.symbol ")")) : Enclosed V W ks x pending (a, true) (b, true) (j + 1)

section

variable {targets : Bool} {ks : List LexemeKind} {V W : Window} {i r m n x : Nat}
  {pending : List Char} (hT : Twins targets ks V W) (hB : Below targets ks V W i r m n)
  (hix : i < x)

include hT hB hix

theorem yieldRule_alike {c : Char} (hx : Open ks x (c :: pending)) :
    Alike V W x (yieldRule (parseWithin m)) (yieldRule (parseWithin n))
      (Kept ks x (c :: pending) Eq) := by
  unfold yieldRule
  refine (hT.acceptWord hx.le hx.tells).bind ?_
  rintro _ _ _ (⟨hk⟩ | ⟨hk⟩)
  · refine (hB.expr (by omega) (by omega) (hx.step hk rfl) (allowed_inside .expression)).bind ?_
    rintro e _ j ⟨rfl, hlt, hj⟩
    exact .pure ⟨rfl, by omega, hj⟩
  refine (hT.atSymbol hx.le hx.tells).bind ?_
  rintro _ _ _ (⟨-⟩ | ⟨-⟩)
  · exact .pure ⟨rfl, Nat.le_refl x, hx⟩
  · refine (hB.expr (by omega) (by omega) hx (allowed_inside .starExpressions)).bind ?_
    rintro e _ j ⟨rfl, hlt, hj⟩
    exact .pure ⟨rfl, by omega, hj⟩

theorem parenthesized_alike (hx : Open ks x (')' :: pending)) :
    Alike V W x (parenthesized (parseWithin m)) (parenthesized (parseWithin n))
      (Enclosed V W ks x pending) := by
  have hwrap {e e' : Expr} {j : Nat} (he : e = e') (hlt : x < j) (hj : Open ks j pending) :
      Alike V W j (do return (Node.of e 0 (← MonadState.get).stop, false))
        (do return (Node.of e' 0 (← MonadState.get).stop, false))
        (Enclosed V W ks x pending) := by
    refine Alike.get.bind ?_
    rintro _ _ _ ⟨rfl, rfl, rfl⟩
    exact .pure (.made he hlt hj)
  have hcloser : shift (')' :: pending) (.symbol ")") = some pending := rfl
  unfold parenthesized
  refine (hT.accept hx.le hx.tells).bind ?_
  rintro _ _ _ (⟨hk⟩ | ⟨hk⟩)
  · exact hwrap rfl (Nat.lt_succ_self x) (hx.step hk hcloser)
  refine (hT.atWord hx.le hx.tells).bind ?_
  rintro _ _ _ (⟨hk⟩ | ⟨hk⟩)
  · have hyield : Alike V W x
        (spanned do
          let _ ← next
          yieldRule (parseWithin m))
        (spanned do
          let _ ← next
          yieldRule (parseWithin n))
        (Read V W ks x (')' :: pending)) := by
      refine .spanned ?_
      refine (hT.next hk).bind ?_
      rintro _ _ _ ⟨-, -, rfl⟩
      refine (yieldRule_alike hT hB (by omega) (hx.step hk rfl)).mono ?_
      rintro e e' j ⟨he, hlt, hj⟩
      exact ⟨he, by omega, hj⟩
    refine hyield.bind ?_
    rintro a b j hread
    refine (hT.expect hread.opened.le hread.opened.tells).bind ?_
    rintro _ _ _ ⟨hk', rfl⟩
    exact .pure (.grouped hread hk')
  refine (hB.goals x .starNamed _ (by omega) (by omega) hx (allowed_inside .starNamed)).bind ?_
  rintro a b j hread
  have hxj := hread.lt
  have hj := hread.opened
  refine (hT.accept hj.le hj.tells).bind ?_
  rintro _ _ _ (⟨hk'⟩ | ⟨hk'⟩)
  · have hnext := hj.step hk' (plain_symbol (by decide) _)
    have hitems := Alike.itemsUntil hT hcloser hnext fun y (hy : j + 1 ≤ y) hyo =>
      hB.expr (by omega) (by omega) hyo (allowed_inside .starNamed)
    refine hitems.bind ?_
    rintro as bs k ⟨hall, hjk, hk''⟩
    rw [List.forall₂_eq_eq_eq] at hall
    subst hall
    exact hwrap (by rw [hread.expr]) (by omega) hk''
  refine (atClause_alike hT hj).bind ?_
  rintro clause _ _ ⟨rfl, rfl⟩
  cases clause with
  | true =>
    rw [hread.expr]
    refine .check _ ?_
    refine (clauses_alike hT hB (by omega) hj).bind ?_
    rintro cs _ k ⟨rfl, hjk, hk''⟩
    refine (hT.expect hk''.le hk''.tells).bind ?_
    rintro _ _ _ ⟨hclose, rfl⟩
    exact hwrap rfl (by omega) (hk''.step hclose hcloser)
  | false =>
    refine (hT.expect hj.le hj.tells).bind ?_
    rintro _ _ _ ⟨hclose, rfl⟩
    rw [hread.expr]
    exact .check _ (.pure (.grouped hread hclose))

theorem bracketed_alike {c : Char} {closer : String} {kind : Display} {collector : Collector}
    {first : Expr} (hcloser : shift (c :: pending) (.symbol closer) = some pending)
    (hx : Open ks x (c :: pending)) :
    Alike V W x (bracketed (parseWithin m) closer kind collector first)
      (bracketed (parseWithin n) closer kind collector first) (Moved ks x pending Eq) := by
  unfold bracketed
  refine (atClause_alike hT hx).bind ?_
  rintro clause _ _ ⟨rfl, rfl⟩
  cases clause with
  | true =>
    refine .check _ ?_
    refine (clauses_alike hT hB hix hx).bind ?_
    rintro cs _ k ⟨rfl, hjk, hk⟩
    refine (hT.expect hk.le hk.tells).bind ?_
    rintro _ _ _ ⟨hclose, rfl⟩
    exact .pure ⟨rfl, by omega, hk.step hclose hcloser⟩
  | false =>
    have hitems := Alike.moreItems hT hx fun y (hy : x < y) hyo =>
      hB.expr (by omega) (by omega) hyo (allowed_inside .starNamed)
    refine hitems.bind ?_
    rintro as bs k ⟨hall, hjk, hk⟩
    rw [List.forall₂_eq_eq_eq] at hall
    subst hall
    refine (hT.expect hk.le hk.tells).bind ?_
    rintro _ _ _ ⟨hclose, rfl⟩
    exact .pure ⟨rfl, by omega, hk.step hclose hcloser⟩

theorem dictEntry_alike {c : Char} (hx : Open ks x (c :: pending)) :
    Alike V W x (dictEntry (parseWithin m)) (dictEntry (parseWithin n))
      (Moved ks x (c :: pending) Eq) := by
  unfold dictEntry
  refine (hT.accept hx.le hx.tells).bind ?_
  rintro _ _ _ (⟨hk⟩ | ⟨hk⟩)
  · refine (hB.expr (by omega) (by omega) (hx.step hk (plain_symbol (by decide) _))
      (allowed_inside (.operation 0))).bind ?_
    rintro e _ j ⟨rfl, hlt, hj⟩
    exact .pure ⟨rfl, by omega, hj⟩
  · refine (hB.expr (by omega) (by omega) hx (allowed_inside .expression)).bind ?_
    rintro key _ j ⟨rfl, hlt, hj⟩
    refine (hT.expect hj.le hj.tells).bind ?_
    rintro _ _ _ ⟨hcolon, rfl⟩
    refine (hB.expr (by omega) (by omega) (hj.step hcolon (plain_symbol (by decide) _))
      (allowed_inside .expression)).bind ?_
    rintro value _ k ⟨rfl, hlt', hk⟩
    exact .pure ⟨rfl, by omega, hk⟩

theorem braced_alike (hx : Open ks x ('}' :: pending)) :
    Alike V W x (braced (parseWithin m)) (braced (parseWithin n)) (Moved ks x pending Eq) := by
  have hcloser : shift ('}' :: pending) (.symbol "\x7d") = some pending := rfl
  have hentries {y : Nat} (hxy : x ≤ y) (hy : Open ks y ('}' :: pending)) :
      Alike V W y (itemsUntil "\x7d" (dictEntry (parseWithin m)))
        (itemsUntil "\x7d" (dictEntry (parseWithin n))) (Moved ks y pending Eq) := by
    refine (Alike.itemsUntil hT hcloser hy fun z (hz : y ≤ z) hzo =>
      dictEntry_alike hT hB (by omega) hzo).mono ?_
    rintro as bs j ⟨hall, hlt, hj⟩
    exact ⟨List.forall₂_eq_eq_eq ▸ hall, hlt, hj⟩
  unfold braced
  refine (hT.accept hx.le hx.tells).bind ?_
  rintro _ _ _ (⟨hk⟩ | ⟨hk⟩)
  · exact .pure ⟨rfl, Nat.lt_succ_self x, hx.step hk hcloser⟩
  refine (hT.atSymbol hx.le hx.tells).bind ?_
  rintro _ _ _ (⟨hk⟩ | ⟨hk⟩)
  · refine (hentries (Nat.le_refl x) hx).bind ?_
    rintro as _ j ⟨rfl, hlt, hj⟩
    exact .pure ⟨rfl, hlt, hj⟩
  have hassigned : Alike V W x atAssignment atAssignment fun a b j => a = b ∧ x = j := by
    refine (atAssignment_alike hT (hx.lt (List.cons_ne_nil _ _))).mono ?_
    rintro _ _ _ (⟨-⟩ | ⟨-⟩)
    · exact ⟨rfl, rfl⟩
    · exact ⟨rfl, rfl⟩
  refine hassigned.bind ?_
  rintro assigned _ _ ⟨rfl, rfl⟩
  refine (hB.expr (by omega) (by omega) hx (allowed_inside .starNamed)).bind ?_
  rintro first _ j ⟨rfl, hlt, hj⟩
  refine (hT.accept hj.le hj.tells).bind ?_
  rintro _ _ _ (⟨hcolon⟩ | ⟨hcolon⟩)
  · refine .check _ ?_
    refine (hB.expr (by omega) (by omega) (hj.step hcolon (plain_symbol (by decide) _))
      (allowed_inside .expression)).bind ?_
    rintro value _ k ⟨rfl, hlt', hk⟩
    refine (atClause_alike hT hk).bind ?_
    rintro clause _ _ ⟨rfl, rfl⟩
    cases clause with
    | true =>
      refine (clauses_alike hT hB (by omega) hk).bind ?_
      rintro cs _ l ⟨rfl, hkl, hl⟩
      refine (hT.expect hl.le hl.tells).bind ?_
      rintro _ _ _ ⟨hclose, rfl⟩
      exact .pure ⟨rfl, by omega, hl.step hclose hcloser⟩
    | false =>
      refine (hT.accept hk.le hk.tells).bind ?_
      rintro _ _ _ (⟨hcomma⟩ | ⟨hcomma⟩)
      · refine (hentries (by omega) (hk.step hcomma (plain_symbol (by decide) _))).bind ?_
        rintro as _ l ⟨rfl, hlt'', hl⟩
        exact .pure ⟨rfl, by omega, hl⟩
      · refine (hT.expect hk.le hk.tells).bind ?_
        rintro _ _ _ ⟨hclose, rfl⟩
        exact .pure ⟨rfl, by omega, hk.step hclose hcloser⟩
  · refine (bracketed_alike hT hB (by omega) hcloser hj).mono ?_
    rintro e e' k ⟨he, hlt', hk⟩
    exact ⟨he, by omega, hk⟩

end

section

variable {targets : Bool} {ks : List LexemeKind} {V W : Window} {i r m n : Nat}
  {pending : List Char}

def literals : Parser (List (Expr.QuotePrefix × List Char)) := repeated do
  match ← peek with
  | some (.string style body) =>
    let _ ← next
    return some (style, body)
  | _ => return none

theorem stringsRule_eq (parse : Goal → Parser Node) : stringsRule parse = (do
    let parts ← literals
    if parts.all fun p => p.1.bytes then
      let bytes ← parts.mapM fun p => (liftM (if p.1.raw then Expr.Escapes.rawBytes p.2
        else Expr.Escapes.decodeBytes 0 p.2) : Parser _)
      return .literal (.bytes bytes.flatten)
    else if parts.any fun p => p.1.bytes then failure
    else
      let pieces ← parts.mapM fun p => (liftM (stringPart parse p.1 p.2) : Parser _)
      if parts.any fun p => p.1.formatted then return .interpolated pieces.flatten
      else
        return .literal (.text (String.join (pieces.flatten.map fun
          | .text s => s
          | .field .. => "")))) := rfl

theorem lift_alike {α : Type} (o : Option α) (j : Nat) :
    Alike V W j (liftM o : Parser α) (liftM o : Parser α) fun a b j' => a = b ∧ j = j' := by
  cases o with
  | none => exact .inl ⟨rfl, rfl⟩
  | some a => exact .pure ⟨rfl, rfl⟩

theorem mapM_alike {α β : Type} {f g : α → Parser β} {as : List α} {j : Nat}
    (h : ∀ a ∈ as, Alike V W j (f a) (g a) fun b b' j' => b = b' ∧ j = j') :
    Alike V W j (as.mapM f) (as.mapM g) fun bs bs' j' => bs = bs' ∧ j = j' := by
  induction as with
  | nil =>
    rw [List.mapM_nil, List.mapM_nil]
    exact .pure ⟨rfl, rfl⟩
  | cons a as ih =>
    rw [List.mapM_cons, List.mapM_cons]
    refine (h a List.mem_cons_self).bind ?_
    rintro b _ _ ⟨rfl, rfl⟩
    refine (ih fun a' ha' => h a' (List.mem_cons_of_mem a ha')).bind ?_
    rintro bs _ _ ⟨rfl, rfl⟩
    exact .pure ⟨rfl, rfl⟩

variable (hT : Twins targets ks V W)

include hT

theorem literals_alike (hopen : Open ks i pending) {style : Expr.QuotePrefix} {body : List Char}
    (hstring : ks[i]? = some (.string style body)) :
    Alike V W i literals literals fun ps qs j => Moved ks i pending Eq ps qs j ∧
      ∀ p ∈ ps, ∃ x, i ≤ x ∧ ks[x]? = some (.string p.1 p.2) := by
  refine (Alike.repeated (fun p q => p = q ∧ ∃ x, i ≤ x ∧ ks[x]? = some (.string p.1 p.2))
    (fun x => Open ks x pending)
    (fun y j => y = j ∧ ∀ style body, ks[y]? ≠ some (.string style body)) hT
    (fun x hx => hx.le) ?_ hopen).mono ?_
  · intro x hix hx
    refine (hT.peek hx.le).bind ?_
    rintro a b _ ⟨hseen, rfl⟩
    cases hseen with
    | behind hle ha hb =>
      have hno (style : Expr.QuotePrefix) (body : List Char) : ks[x]? ≠ some (.string style body) :=
        fun hk => absurd (List.getElem?_eq_some_iff.mp hk).1 (Nat.not_lt_of_le hle)
      cases ha <;> cases hb <;> exact .pure (.last ⟨rfl, hno⟩)
    | @inside k hk =>
      split
      · rename_i hkind
        cases hkind
        refine (hT.next hk).bind ?_
        rintro _ _ _ ⟨-, -, rfl⟩
        exact .pure (.more ⟨rfl, x, hix, hk⟩ (Nat.lt_succ_self x) (hx.step hk rfl))
      · rename_i hno
        refine .pure (.last ⟨rfl, fun style body hk' => ?_⟩)
        exact hno style body (hk.symm.trans hk')
  · rintro ps qs j ⟨hall, y, hiy, hy, ⟨rfl, hno⟩, hnil⟩
    have hparts : ps = qs ∧ ∀ p ∈ ps, ∃ x, i ≤ x ∧ ks[x]? = some (.string p.1 p.2) := by
      clear hnil
      induction hall with
      | nil => exact ⟨rfl, nofun⟩
      | cons hab hall ih =>
        obtain ⟨rfl, hplace⟩ := hab
        obtain ⟨rfl, hplaces⟩ := ih
        exact ⟨rfl, List.forall_mem_cons.mpr ⟨hplace, hplaces⟩⟩
    refine ⟨⟨hparts.1, ?_, hy⟩, hparts.2⟩
    refine Nat.lt_of_le_of_ne hiy fun heq => ?_
    subst heq
    exact hno style body hstring

theorem stringsRule_alike (hB : Below targets ks V W i r m n) (hopen : Open ks i pending)
    {style : Expr.QuotePrefix} {body : List Char}
    (hstring : ks[i]? = some (.string style body)) :
    Alike V W i (stringsRule (parseWithin m)) (stringsRule (parseWithin n))
      (Moved ks i pending Eq) := by
  rw [stringsRule_eq, stringsRule_eq]
  refine (literals_alike hT hopen hstring).bind ?_
  rintro parts _ j ⟨⟨rfl, hij, hj⟩, hparts⟩
  have hpieces : Alike V W j
      (parts.mapM fun p => (liftM (stringPart (parseWithin m) p.1 p.2) : Parser _))
      (parts.mapM fun p => (liftM (stringPart (parseWithin n) p.1 p.2) : Parser _))
      fun as bs k => as = bs ∧ j = k := by
    refine mapM_alike fun p hp => ?_
    obtain ⟨x, hix, hk⟩ := hparts p hp
    rw [hB.strings x p.1 p.2 hix hk]
    exact lift_alike _ j
  split
  · refine (mapM_alike fun p _ => lift_alike _ j).bind ?_
    rintro bytes _ _ ⟨rfl, rfl⟩
    exact .pure ⟨rfl, hij, hj⟩
  · split
    · exact .failure
    · refine hpieces.bind ?_
      rintro pieces _ _ ⟨rfl, rfl⟩
      split
      · exact .pure ⟨rfl, hij, hj⟩
      · exact .pure ⟨rfl, hij, hj⟩

end

theorem atomRule_fails {targets : Bool} {c : Cursor} (hc : Ends targets c.rest)
    (parse : Goal → Parser Node) : (atomRule parse).run c = none := by
  have hpeek : peek.run c = some (c.rest.head?.map (·.kind), c) := rfl
  rw [atomRule, StateT.run_bind, hpeek, Option.bind_eq_bind, Option.bind_some]
  obtain ⟨rest, stop⟩ := c
  cases hc with
  | nothing => rfl
  | closer h | colon h h' =>
    rw [List.head?_cons, Option.map_some, h]
    rfl
  | word hs h =>
    rw [List.head?_cons, Option.map_some, h]
    rcases hs with rfl | ⟨rfl, -⟩ <;> exact spanned_fails rfl

section

variable {targets : Bool} {ks : List LexemeKind} {V W : Window} {i r m n : Nat}
  {pending : List Char} (hT : Twins targets ks V W) (hB : Below targets ks V W i r m n)
  (hopen : Open ks i pending)

include hT

include hopen in
/-- What parentheses hold that only group is handed on with its stretch. -/
theorem Read.grouped {a b : Node} {j : Nat}
    (hm : 32 * load (ks.drop (i + 1)) + 33 ≤ m) (hk : ks[i]? = some (.symbol "("))
    (hk' : ks[j]? = some (.symbol ")"))
    (hrun : (parenthesized (parseWithin m)).run (V.cursor (i + 1)) =
      some ((a, true), V.cursor (j + 1)))
    (hread : Read V W ks (i + 1) (')' :: pending) a b j) : Read V W ks i pending a b (j + 1) where
  lt := by
    have hij := hread.lt
    omega
  opened := hread.opened.step hk' rfl
  expr := hread.expr
  stretch := by
    obtain ⟨i', j', hspan, hspan', hgrouped⟩ := hread.stretch
    have hV := hT.left
    subst hV
    refine ⟨i', j', hspan, hspan', ?_⟩
    cases hgrouped with
    | whole => exact .inside hk hk' ⟨pending, hopen.step hk rfl, hread.opened⟩ hm hrun rfl
    | inside hopen' hclose hinside hm' hrun' he =>
      exact .deeper hk hk' (by omega) (.inside hopen' hclose hinside hm' hrun' he)
    | deeper hopen' hclose hlt h => exact .deeper hk hk' (by omega) (.deeper hopen' hclose hlt h)

include hB hopen

theorem atomRule_alike (hr : 0 < r) :
    Alike V W i (atomRule (parseWithin m)) (atomRule (parseWithin n))
      (Read V W ks i pending) := by
  rcases Nat.lt_or_ge i ks.length with hi | hle
  · have hk := List.getElem?_eq_getElem hi
    generalize ks[i] = k at hk
    have hliteral (e : Expr) (hplain : Plain k) :
        Alike V W i
          (spanned do
            let _ ← next
            return e)
          (spanned do
            let _ ← next
            return e)
          (Read V W ks i pending) := by
      refine .spanned ?_
      refine (hT.next hk).bind ?_
      rintro _ _ _ ⟨-, -, rfl⟩
      exact .pure ⟨rfl, Nat.lt_succ_self i, hopen.step hk (hplain pending)⟩
    unfold atomRule
    refine (hT.peek hopen.le).bind ?_
    rintro a b _ ⟨hseen, rfl⟩
    cases hseen with
    | behind hle => exact absurd hi (Nat.not_lt_of_le hle)
    | @inside k' hk' =>
      cases hk.symm.trans hk'
      split
      · rename_i hkind
        cases hkind
        refine Alike.startOffset.bind ?_
        rintro _ _ _ ⟨rfl, rfl, rfl⟩
        refine (hT.next hk).bind ?_
        rintro _ _ _ ⟨-, -, rfl⟩
        have hinside := parenthesized_alike hT hB (Nat.lt_succ_self i) (hopen.step hk rfl)
        rcases hinside with ⟨hp, hq⟩ | ⟨x, y, j, hp, hq, henclosed⟩
        · exact .inl ⟨bind_fails hp, bind_fails hq⟩
        · cases henclosed with
          | made he hlt hj =>
            exact .inr ⟨_, _, j, by rw [StateT.run_bind, hp]; rfl, by rw [StateT.run_bind, hq]; rfl,
              .whole he (by omega) hj⟩
          | grouped hread hclose =>
            have hload := load_drop hk
            have hdepth := hB.depth
            have hweight : weight (.symbol "(") = 1 := rfl
            have hgrouped := hread.grouped hT hopen (by omega) hk hclose hp
            exact .inr ⟨_, _, _, by rw [StateT.run_bind, hp]; rfl, by rw [StateT.run_bind, hq]; rfl,
              hgrouped⟩
      · rename_i hkind
        cases hkind
        refine .spanned ?_
        refine (hT.next hk).bind ?_
        rintro _ _ _ ⟨-, -, rfl⟩
        have hnext := hopen.step hk rfl
        have hcloser : shift (']' :: pending) (.symbol "]") = some pending := rfl
        refine (hT.accept hnext.le hnext.tells).bind ?_
        rintro _ _ _ (⟨hk'⟩ | ⟨hk'⟩)
        · exact .pure ⟨rfl, by omega, hnext.step hk' hcloser⟩
        · refine (hB.expr (by omega) (by omega) hnext (allowed_inside .starNamed)).bind ?_
          rintro first _ j ⟨rfl, hlt, hj⟩
          refine (bracketed_alike hT hB (by omega) hcloser hj).mono ?_
          rintro e e' k ⟨he, hlt', hk⟩
          exact ⟨he, by omega, hk⟩
      · rename_i hkind
        cases hkind
        refine .spanned ?_
        refine (hT.next hk).bind ?_
        rintro _ _ _ ⟨-, -, rfl⟩
        refine (braced_alike hT hB (Nat.lt_succ_self i) (hopen.step hk rfl)).mono ?_
        rintro e e' j ⟨he, hlt, hj⟩
        exact ⟨he, by omega, hj⟩
      · rename_i hkind
        cases hkind
        exact hliteral _ (plain_symbol (by decide))
      · rename_i hkind
        cases hkind
        exact .spanned (stringsRule_alike hT hB hopen hk)
      · rename_i hkind
        cases hkind
        exact hliteral _ fun _ => rfl
      · rename_i s hkind
        cases hkind
        refine .spanned ?_
        refine (hT.next hk).bind ?_
        rintro _ _ _ ⟨-, -, rfl⟩
        have hname (e : Expr) : Alike V W (i + 1) (pure e) (pure e) (Moved ks i pending Eq) :=
          .pure ⟨rfl, Nat.lt_succ_self i, hopen.step hk rfl⟩
        split
        · exact hname _
        · exact hname _
        · exact hname _
        · split
          · exact .failure
          · exact hname _
      · exact .failure
  · have hrest {V : Window} (hV : V.kinds = ks) : (V.cursor i).rest = V.behind := by
      rw [Window.cursor, List.drop_of_length_le (Window.length_kinds hV ▸ hle), List.nil_append]
    exact .inl ⟨atomRule_fails (hrest hT.left ▸ hT.leftEnds) _,
      atomRule_fails (hrest hT.right ▸ hT.rightEnds) _⟩

theorem targetRule_alike (hg : pending = [] → Allowed targets .target) (hr : 3 ≤ r) :
    Alike V W i (targetRule (parseWithin m)) (targetRule (parseWithin n))
      (Read V W ks i pending) := by
  have hprimary : pending = [] → Allowed targets .primary := fun _ _ => .inr (.inl rfl)
  unfold targetRule
  refine (hT.atSymbol hopen.le (.symbol (by decide))).bind ?_
  rintro _ _ _ (⟨hk⟩ | ⟨hk⟩)
  · have hnext := hopen.step hk (plain_symbol (by decide) pending)
    refine .spanned ?_
    refine (hT.next hk).bind ?_
    rintro _ _ _ ⟨-, -, rfl⟩
    refine (hT.atSymbol hnext.le (.symbol (by decide))).bind ?_
    rintro _ _ _ (⟨hk'⟩ | ⟨hk'⟩)
    · exact .inl ⟨rfl, rfl⟩
    · refine (hB.expr (by omega) (by omega) hnext hg).bind ?_
      rintro e _ j ⟨rfl, hlt, hj⟩
      exact .pure ⟨rfl, by omega, hj⟩
  · refine (hB.goals i .primary pending (Nat.le_refl i) (fun _ => hr) hopen hprimary).bind ?_
    rintro x y j hread
    rw [hread.expr]
    split
    · exact .pure hread
    · exact .failure

end

end Stencil.Grammar
