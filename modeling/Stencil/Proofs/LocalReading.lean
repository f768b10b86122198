import Stencil.Proofs.Windows

/-!
# Reading is local

What a rule reads from a window depends on the kinds of its lexemes only: not on where they stand,
not on what stands behind the window, and not on the depth up to which rules call each other, if
that is enough for the window. Each rule is shown to read alike if the goals that it calls do.
-/

namespace Stencil.Grammar

open Stencil.Expr (Lexeme LexemeKind)
open Stencil.Grammar.Parser

def weight : LexemeKind → Nat
  | .string _ body => body.length + 1
  | _ => 1

def load : List LexemeKind → Nat
  | [] => 0
  | k :: ks => weight k + load ks

/-- How many goals may call each other at one place. -/
def rank : Goal → Nat
  | .atom => 1
  | .primary => 2
  | .awaited | .target => 3
  | .power | .targets => 4
  | .factor => 5
  | .operation level => 6 + (operators.length - level)
  | .comparison => 13
  | .inversion => 14
  | .conjunction => 15
  | .disjunction => 16
  | .expression => 17
  | .named => 18
  | .starNamed | .starExpression => 19
  | .expressions | .starExpressions => 20

theorem rank_lt (g : Goal) : rank g < 21 := by
  cases g with
  | operation level =>
    have hlength : operators.length = 6 := rfl
    simp only [rank, hlength]
    omega
  | _ => decide

theorem weight_pos (k : LexemeKind) : 0 < weight k := by
  cases k <;> simp [weight]

theorem load_drop {ks : List LexemeKind} {i : Nat} {k : LexemeKind} (hk : ks[i]? = some k) :
    load (ks.drop i) = weight k + load (ks.drop (i + 1)) := by
  obtain ⟨hi, rfl⟩ := List.getElem?_eq_some_iff.mp hk
  rw [List.drop_eq_getElem_cons hi, load]

theorem load_drop_succ_le (ks : List LexemeKind) (i : Nat) :
    load (ks.drop (i + 1)) ≤ load (ks.drop i) := by
  rcases Nat.lt_or_ge i ks.length with hi | hi
  · have hload := load_drop (List.getElem?_eq_getElem hi)
    omega
  · refine Nat.le_of_eq ?_
    rw [List.drop_of_length_le hi, List.drop_of_length_le (by omega)]

theorem load_drop_le (ks : List LexemeKind) {i j : Nat} (hij : i ≤ j) :
    load (ks.drop j) ≤ load (ks.drop i) := by
  obtain ⟨d, rfl⟩ := Nat.exists_eq_add_of_le hij
  induction d with
  | zero => exact Nat.le_refl _
  | succ d ih => exact Nat.le_trans (load_drop_succ_le ks (i + d)) (ih (Nat.le_add_right i d))

theorem load_drop_lt {ks : List LexemeKind} {i j : Nat} (hij : i < j) (hj : j ≤ ks.length) :
    load (ks.drop j) < load (ks.drop i) := by
  have hload := load_drop (List.getElem?_eq_getElem (by omega : i < ks.length))
  have hpos := weight_pos ks[i]
  have hle : load (ks.drop j) ≤ load (ks.drop (i + 1)) := load_drop_le ks hij
  omega

def Allowed (targets : Bool) (g : Goal) : Prop :=
  targets = true → g = .atom ∨ g = .primary ∨ g = .target ∨ g = .targets

/-- Reading from `i` up to `j`, an expression was found from `i'` up to `j'`: what stands around it
are parentheses that only group, and inside the innermost of them it is read alone. -/
inductive Grouped (V : Window) (e : Expr) : Nat → Nat → Nat → Nat → Prop
  | whole (i j : Nat) : Grouped V e i i j j
  | inside {i j m : Nat} {node : Node} (hopen : V.kinds[i]? = some (.symbol "("))
      (hclose : V.kinds[j]? = some (.symbol ")"))
      (hinside : ∃ pending, Open V.kinds (i + 1) (')' :: pending) ∧ Open V.kinds j (')' :: pending))
      (hm : 32 * load (V.kinds.drop (i + 1)) + 33 ≤ m)
      (hread : (parenthesized (parseWithin m)).run (V.cursor (i + 1)) =
        some ((node, true), V.cursor (j + 1)))
      (he : node.expr = e) : Grouped V e i (i + 1) j (j + 1)
  | deeper {i i' j' j : Nat} (hopen : V.kinds[i]? = some (.symbol "("))
      (hclose : V.kinds[j]? = some (.symbol ")")) (hlt : i + 1 < i')
      (h : Grouped V e (i + 1) i' j' j) : Grouped V e i i' j' (j + 1)

/-- Two nodes of one expression, read from `i` up to `j`. -/
structure Read (V W : Window) (ks : List LexemeKind) (i : Nat) (pending : List Char) (x y : Node)
    (j : Nat) : Prop where
  lt : i < j
  opened : Open ks j pending
  expr : x.expr = y.expr
  stretch : ∃ i' j', x.span = V.span i' j' ∧ y.span = W.span i' j' ∧ Grouped V x.expr i i' j' j

/-- Goals read alike from `i` on, those of lower rank than `r` also at `i`. -/
structure Below (targets : Bool) (ks : List LexemeKind) (V W : Window) (i r m n : Nat) : Prop where
  goals : ∀ j g pending, i ≤ j → (j = i → rank g < r) → Open ks j pending →
    (pending = [] → Allowed targets g) →
    Alike V W j (parseWithin m g) (parseWithin n g) (Read V W ks j pending)
  strings : ∀ j style body, i ≤ j → ks[j]? = some (.string style body) →
    stringPart (parseWithin m) style body = stringPart (parseWithin n) style body
  depth : 32 * load (ks.drop i) + r ≤ m

section

variable {targets : Bool} {ks : List LexemeKind} {V W : Window} {i j r m n : Nat}
  {pending : List Char}

theorem Below.expr (hB : Below targets ks V W i r m n) {g : Goal} (hij : i ≤ j)
    (hrank : j = i → rank g < r) (hj : Open ks j pending) (hg : pending = [] → Allowed targets g) :
    Alike V W j (parseExpr (parseWithin m) g) (parseExpr (parseWithin n) g)
      (Moved ks j pending Eq) := by
  unfold parseExpr
  refine (hB.goals j g pending hij hrank hj hg).bind ?_
  rintro x y k hread
  exact .pure ⟨hread.expr, hread.lt, hread.opened⟩

theorem Alike.node {e e' : Expr} (he : e = e') (hij : i < j) (hj : Open ks j pending) :
    Alike V W j (do return Node.of e (V.start i) (← MonadState.get).stop)
      (do return Node.of e' (W.start i) (← MonadState.get).stop) (Read V W ks i pending) := by
  refine Alike.get.bind ?_
  rintro _ _ _ ⟨rfl, rfl, rfl⟩
  exact .pure ⟨hij, hj, he, i, _, rfl, rfl, .whole i _⟩

theorem Alike.fails_at_end {p q : Parser Node} (h : Alike V W i p q (Read V W ks i pending))
    (hi : ks.length ≤ i) : p.run (V.cursor i) = none ∧ q.run (W.cursor i) = none := by
  rcases h with h | ⟨x, y, j, -, -, hread⟩
  · exact h
  · exact absurd (Nat.lt_of_lt_of_le hread.lt hread.opened.le) (Nat.not_lt_of_le hi)

theorem Alike.spanned {p q : Parser Expr} (h : Alike V W i p q (Moved ks i pending Eq)) :
    Alike V W i (spanned p) (spanned q) (Read V W ks i pending) := by
  unfold Parser.spanned
  refine Alike.startOffset.bind ?_
  rintro _ _ _ ⟨rfl, rfl, rfl⟩
  refine h.bind ?_
  rintro e e' j ⟨he, hij, hj⟩
  exact .node he hij hj

/-- Operands behind a first one, joined to it if there are any. -/
theorem Read.joined {γ : Type} {x y : Node} {as bs : List γ} {k : Nat}
    (hread : Read V W ks i pending x y j)
    (hrounds : Rounds Eq (fun x => Open ks x pending) Eq j as bs k) (e e' : List γ → Expr)
    (he : e as = e' as) :
    Alike V W k
      (if as.isEmpty then return x
        else return Node.of (e as) (V.start i) (← MonadState.get).stop)
      (if bs.isEmpty then return y
        else return Node.of (e' bs) (W.start i) (← MonadState.get).stop)
      (Read V W ks i pending) := by
  obtain ⟨hall, k', hk, hopen, rfl, hnil⟩ := hrounds
  rw [List.forall₂_eq_eq_eq] at hall
  subst hall
  cases as with
  | nil =>
    cases hnil rfl
    exact .pure hread
  | cons a as => exact .node he (Nat.lt_of_lt_of_le hread.lt hk) hopen

end

/-- The comparison that two lexemes begin with, and whether it is written in both of them. -/
def comparison? : Option LexemeKind → Option LexemeKind → Option (CompareOp × Bool)
  | some (.symbol "=="), _ => some (.equal, false)
  | some (.symbol "!="), _ => some (.unequal, false)
  | some (.symbol "<"), _ => some (.less, false)
  | some (.symbol "<="), _ => some (.lessEqual, false)
  | some (.symbol ">"), _ => some (.greater, false)
  | some (.symbol ">="), _ => some (.greaterEqual, false)
  | some (.name "in"), _ => some (.member, false)
  | some (.name "not"), some (.name "in") => some (.notMember, true)
  | some (.name "is"), some (.name "not") => some (.distinct, true)
  | some (.name "is"), _ => some (.identical, false)
  | _, _ => none

theorem comparisonAt_eq : comparisonAt = (do
    match comparison? (← peek) (← peekSecond) with
    | none => return none
    | some (op, twice) => do
      let _ ← next
      if twice then
        let _ ← next
        return some op
      else return some op) := by
  unfold comparisonAt
  congr 1
  funext a
  congr 1
  funext b
  split
  · rename_i s
    dsimp only
    split <;> try rfl
    rename_i h₁ h₂ h₃ h₄ h₅ h₆
    have hnone : comparison? (some (.symbol s)) b = none := by
      unfold comparison?
      split <;> simp_all
    rw [hnone]
    rfl
  · rfl
  · rfl
  · rfl
  · rename_i h
    have hsome : comparison? (some (.name "is")) b = some (.identical, false) := by
      unfold comparison?
      split <;> simp_all
    rw [hsome]
    rfl
  · rename_i h₁ h₂ h₃ h₄ h₅
    have hnone : comparison? a b = none := by
      unfold comparison?
      split <;> simp_all
    rw [hnone]

theorem comparison?_of_ender {a : Option LexemeKind} (ha : Ender false a) (b : Option LexemeKind) :
    comparison? a b = none := by
  cases ha with
  | nothing | closer | colon => rfl
  | word h =>
    rcases h with rfl | ⟨rfl, htargets⟩
    · rfl
    · cases htargets

theorem comparison?_behind {b : Option LexemeKind} (hb : Ender false b) (a : Option LexemeKind) :
    comparison? a b = comparison? a none := by
  cases hb with
  | nothing => rfl
  | closer | colon =>
    unfold comparison?
    split <;> simp_all
  | word h =>
    rcases h with rfl | ⟨rfl, htargets⟩
    · unfold comparison?
      split <;> simp_all
    · cases htargets

def Plain (k : LexemeKind) : Prop := ∀ pending, shift pending k = some pending

theorem plain_symbol {s : String} (hs : s ∉ ["(", "[", "\x7b", ")", "]", "\x7d"]) :
    Plain (.symbol s) := by
  intro pending
  unfold shift
  split <;> simp_all

theorem plain_of_comparison {k : LexemeKind} {b : Option LexemeKind} {op : CompareOp} {twice : Bool}
    (h : comparison? (some k) b = some (op, twice)) :
    Plain k ∧ (twice = true → ∃ k', b = some k' ∧ Plain k') := by
  have hname (s : String) : Plain (.name s) := fun _ => rfl
  generalize ha : some k = a at h
  unfold comparison? at h
  split at h <;> cases h <;> cases ha
  all_goals
    refine ⟨?_, ?_⟩
    · first | exact hname _ | exact plain_symbol (by decide)
    · first | exact fun _ => ⟨_, rfl, hname _⟩ | nofun

inductive Sign {γ : Type} (ks : List LexemeKind) (i : Nat) (pending : List Char) :
    Option γ → Option γ → Nat → Prop
  | none : Sign ks i pending none none i
  | some (op : γ) {j : Nat} (hlt : i < j) (hj : Open ks j pending) :
      Sign ks i pending (some op) (some op) j

section

variable {targets : Bool} {ks : List LexemeKind} {V W : Window} {i r m n : Nat}
  {pending : List Char} (hT : Twins targets ks V W) (hB : Below targets ks V W i r m n)
  (hopen : Open ks i pending) (hfree : pending = [] → targets = false)

include hfree in
theorem allowed_of_free (g : Goal) : pending = [] → Allowed targets g :=
  fun hpending htargets => absurd (htargets.symm.trans (hfree hpending)) nofun

include hT hB hopen hfree

theorem booleanRule_alike {any : Bool} {word : String} {operand : Goal} (hword : word ≠ "as" ∧ word ≠ "in")
    (hrank : rank operand < r) :
    Alike V W i (booleanRule (parseWithin m) any word operand)
      (booleanRule (parseWithin n) any word operand) (Read V W ks i pending) := by
  have hg := allowed_of_free hfree operand
  unfold booleanRule
  refine Alike.startOffset.bind ?_
  rintro _ _ _ ⟨rfl, rfl, rfl⟩
  refine (hB.goals i operand pending (Nat.le_refl i) (fun _ => hrank) hopen hg).bind ?_
  rintro first first' j hfirst
  have hij := hfirst.lt
  refine (Alike.repeated Eq (fun x => Open ks x pending) Eq hT
    (fun x hx => hx.le) ?_ hfirst.opened).bind ?_
  · intro x hx hxo
    refine (hT.acceptWord hxo.le (.word hword)).bind ?_
    rintro _ _ _ (⟨hk⟩ | ⟨hk⟩)
    · refine (hB.expr (by omega) (by omega) (hxo.step hk rfl) hg).bind ?_
      rintro a b y ⟨rfl, hlt, hy⟩
      exact .pure (.more rfl (by omega) hy)
    · exact .pure (.last rfl)
  · rintro as bs k hrounds
    exact hfirst.joined hrounds (fun as => .boolean any (first.expr :: as))
      (fun as => .boolean any (first'.expr :: as)) (by rw [hfirst.expr])

omit hT hB in
/-- Behind the last lexeme the end of a target is not seen, if there can be one. -/
theorem free_of_le (hle : ks.length ≤ i) : targets = false := by
  by_cases hpending : pending = []
  · exact hfree hpending
  · exact absurd (hopen.lt hpending) (Nat.not_lt_of_le hle)

omit hB in
theorem comparisonAt_alike : Alike V W i comparisonAt comparisonAt (Sign ks i pending) := by
  rw [comparisonAt_eq]
  refine (hT.peek hopen.le).bind ?_
  rintro a b _ ⟨hseen, rfl⟩
  refine (hT.peekSecond i).bind ?_
  rintro a' b' _ ⟨hsecond, rfl⟩
  cases hseen with
  | behind hle ha hb =>
    cases free_of_le hopen hfree hle
    rw [comparison?_of_ender ha, comparison?_of_ender hb]
    exact .pure .none
  | @inside k hk =>
    have hi : i < ks.length := (List.getElem?_eq_some_iff.mp hk).1
    have hfound : comparison? (some k) a' = comparison? (some k) b' := by
      by_cases hplain : Plain k
      · cases hsecond hi with
        | inside => rfl
        | behind hle ha hb =>
          cases free_of_le (hopen.step hk (hplain pending)) hfree hle
          rw [comparison?_behind ha, comparison?_behind hb]
      · have hnone (b : Option LexemeKind) : comparison? (some k) b = none := by
          cases h : comparison? (some k) b with
          | none => rfl
          | some found => exact absurd (plain_of_comparison h).1 hplain
        rw [hnone, hnone]
    rw [hfound]
    cases hop : comparison? (some k) b' with
    | none => exact .pure .none
    | some found =>
      obtain ⟨op, twice⟩ := found
      obtain ⟨hplain, htwice⟩ := plain_of_comparison hop
      have hnext := hopen.step hk (hplain pending)
      refine (hT.next hk).bind ?_
      rintro _ _ _ ⟨-, -, rfl⟩
      cases twice with
      | false => exact .pure (.some op (Nat.lt_succ_self i) hnext)
      | true =>
        obtain ⟨k', rfl, hplain'⟩ := htwice rfl
        cases hsecond hi with
        | inside hk' =>
          refine (hT.next hk').bind ?_
          rintro _ _ _ ⟨-, -, rfl⟩
          exact .pure (.some op (by omega) (hnext.step hk' (hplain' pending)))
        | behind hle ha hb =>
          cases free_of_le hnext hfree hle
          rw [comparison?_behind hb] at hop
          obtain ⟨_, hk', -⟩ := (plain_of_comparison hop).2 rfl
          cases hk'

omit hT hB hopen hfree in
theorem plain_of_operator {level : Nat} {o : String × BinaryOp}
    (ho : o ∈ operators.getD level []) : Plain (.symbol o.1) ∧ o.1 ≠ ")" ∧ o.1 ≠ ":" := by
  have hall : ∀ ops ∈ operators, ∀ o ∈ ops,
      o.1 ∉ ["(", "[", "\x7b", ")", "]", "\x7d"] ∧ o.1 ≠ ")" ∧ o.1 ≠ ":" := by decide
  have hmem : operators.getD level [] ∈ operators := by
    rw [List.getD_eq_getElem?_getD]
    cases hops : operators[level]? with
    | none => simp [hops] at ho
    | some ops => exact List.mem_of_getElem? hops
  obtain ⟨hplain, hne⟩ := hall _ hmem o ho
  exact ⟨plain_symbol hplain, hne⟩

omit hT hB hopen hfree in
theorem binaryAt_of_ender (level : Nat) {c : Cursor}
    (hc : Ender targets (c.rest.head?.map (·.kind))) :
    (binaryAt level).run c = some (none, c) := by
  have hfind {s : String} (hs : s = ")" ∨ s = ":") :
      ((operators.getD level []).find? fun o => o.1 = s) = none := by
    refine List.find?_eq_none.mpr fun o ho heq => ?_
    obtain ⟨-, hne, hne'⟩ := plain_of_operator ho
    rcases hs with rfl | rfl
    · exact hne (of_decide_eq_true heq)
    · exact hne' (of_decide_eq_true heq)
  have hpeek : peek.run c = some (c.rest.head?.map (·.kind), c) := rfl
  rw [binaryAt, StateT.run_bind, hpeek]
  generalize c.rest.head?.map (·.kind) = a at hc
  cases hc with
  | nothing | word _ => rfl
  | closer =>
    dsimp only [Option.bind_eq_bind, Option.bind_some]
    rw [hfind (.inl rfl)]
    rfl
  | colon =>
    dsimp only [Option.bind_eq_bind, Option.bind_some]
    rw [hfind (.inr rfl)]
    rfl

omit hB hfree in
theorem binaryAt_alike (level : Nat) :
    Alike V W i (binaryAt level) (binaryAt level) (Sign ks i pending) := by
  rcases Nat.lt_or_ge i ks.length with hlt | hle
  · have hk := List.getElem?_eq_getElem hlt
    unfold binaryAt
    refine (hT.peek hopen.le).bind ?_
    rintro a b _ ⟨hseen, rfl⟩
    cases hseen with
    | behind hle => exact absurd hlt (Nat.not_lt_of_le hle)
    | @inside k hk =>
      split
      · rename_i s hs
        cases hs
        split
        · rename_i o ho
          obtain ⟨hplain, -⟩ := plain_of_operator (List.mem_of_find?_eq_some ho)
          have hs : o.1 = s := by simpa using List.find?_some ho
          refine (hT.next hk).bind ?_
          rintro _ _ _ ⟨-, -, rfl⟩
          exact .pure (.some o.2 (Nat.lt_succ_self i) (hopen.step hk (hs ▸ hplain pending)))
        · exact .pure .none
      · exact .pure .none
  · have hleft := Window.kindAt_of_le hT.left hle ▸ hT.leftEnds.ender
    have hright := Window.kindAt_of_le hT.right hle ▸ hT.rightEnds.ender
    exact .inr ⟨none, none, i, binaryAt_of_ender level hleft, binaryAt_of_ender level hright, .none⟩

omit hT hopen in
theorem operand_alike {γ : Type} {p : Parser (Option γ)} {g : Goal} {x : Nat} (hix : i < x)
    (hp : Alike V W x p p (Sign ks x pending)) {f f' : Option γ → Parser (Option (γ × Expr))}
    (hf : ∀ op, f (some op) = do return some (op, ← parseExpr (parseWithin m) g))
    (hf' : ∀ op, f' (some op) = do return some (op, ← parseExpr (parseWithin n) g))
    (hnone : f none = pure none ∧ f' none = pure none) :
    Alike V W x (p >>= f) (p >>= f') (Round Eq (fun x => Open ks x pending) Eq x) := by
  refine hp.bind ?_
  rintro _ _ _ (_ | ⟨op, hlt, hy⟩)
  · rw [hnone.1, hnone.2]
    exact .pure (.last rfl)
  · rw [hf, hf']
    refine (hB.expr (by omega) (by omega) hy (allowed_of_free hfree g)).bind ?_
    rintro a b z ⟨rfl, hlt', hz⟩
    exact .pure (.more rfl (by omega) hz)

theorem comparisonRule_alike (hr : 13 ≤ r) :
    Alike V W i (comparisonRule (parseWithin m)) (comparisonRule (parseWithin n))
      (Read V W ks i pending) := by
  unfold comparisonRule
  refine Alike.startOffset.bind ?_
  rintro _ _ _ ⟨rfl, rfl, rfl⟩
  have hrank : rank (.operation 0) = 12 := rfl
  refine (hB.goals i _ pending (Nat.le_refl i) (by omega) hopen (allowed_of_free hfree _)).bind ?_
  rintro first first' j hfirst
  have hij := hfirst.lt
  refine (Alike.repeated Eq (fun x => Open ks x pending) Eq hT (fun x hx => hx.le) ?_
    hfirst.opened).bind ?_
  · intro x hx hxo
    exact operand_alike hB hfree (by omega) (comparisonAt_alike hT hxo hfree)
      (fun op => rfl) (fun op => rfl) ⟨rfl, rfl⟩
  rintro as bs k hrounds
  exact hfirst.joined hrounds (fun as => .compare first.expr as) (fun as => .compare first'.expr as)
    (by rw [hfirst.expr])

theorem operationRule_alike {level : Nat} (hr : rank (.operation level) ≤ r) :
    Alike V W i (operationRule (parseWithin m) level) (operationRule (parseWithin n) level)
      (Read V W ks i pending) := by
  have hlength : operators.length = 6 := rfl
  rw [rank, hlength] at hr
  unfold operationRule
  split
  · exact hB.goals i _ pending (Nat.le_refl i) (fun _ => by rw [rank]; omega) hopen
      (allowed_of_free hfree _)
  · rename_i hlevel
    rw [hlength] at hlevel
    have hrank : rank (.operation (level + 1)) < r := by
      rw [rank, hlength]
      omega
    refine Alike.startOffset.bind ?_
    rintro _ _ _ ⟨rfl, rfl, rfl⟩
    refine (hB.goals i _ pending (Nat.le_refl i) (fun _ => hrank) hopen
      (allowed_of_free hfree _)).bind ?_
    rintro first first' j hfirst
    have hij := hfirst.lt
    refine (Alike.repeated Eq (fun x => Open ks x pending) Eq hT (fun x hx => hx.le) ?_
      hfirst.opened).bind ?_
    · intro x hx hxo
      exact operand_alike hB hfree (by omega) (binaryAt_alike hT hxo level)
        (fun op => rfl) (fun op => rfl) ⟨rfl, rfl⟩
    rintro as bs k hrounds
    exact hfirst.joined hrounds
      (fun as => as.foldl (fun left a => .binary a.1 left a.2) first.expr)
      (fun as => as.foldl (fun left a => .binary a.1 left a.2) first'.expr)
      (by rw [hfirst.expr])

theorem marked_alike {k : LexemeKind} (hk : ks[i]? = some k) (hplain : Plain k) (f : Expr → Expr)
    (g : Goal) :
    Alike V W i
      (spanned do
        let _ ← next
        return f (← parseExpr (parseWithin m) g))
      (spanned do
        let _ ← next
        return f (← parseExpr (parseWithin n) g))
      (Read V W ks i pending) := by
  refine .spanned ?_
  refine (hT.next hk).bind ?_
  rintro _ _ _ ⟨-, -, rfl⟩
  refine (hB.expr (by omega) (by omega) (hopen.step hk (hplain pending))
    (allowed_of_free hfree g)).bind ?_
  rintro e _ j ⟨rfl, hlt, hj⟩
  exact .pure ⟨rfl, by omega, hj⟩

theorem inversionRule_alike (hr : 14 ≤ r) :
    Alike V W i (inversionRule (parseWithin m)) (inversionRule (parseWithin n))
      (Read V W ks i pending) := by
  unfold inversionRule
  refine (hT.atWord hopen.le (.word (by decide))).bind ?_
  rintro _ _ _ (⟨hk⟩ | ⟨hk⟩)
  · exact marked_alike hT hB hopen hfree hk (fun _ => rfl) _ _
  · exact hB.goals i _ pending (Nat.le_refl i) (fun _ => hr) hopen (allowed_of_free hfree _)

theorem factorRule_alike (hr : 5 ≤ r) :
    Alike V W i (factorRule (parseWithin m)) (factorRule (parseWithin n))
      (Read V W ks i pending) := by
  have hpower := hB.goals i .power pending (Nat.le_refl i) (fun _ => hr) hopen
    (allowed_of_free hfree _)
  unfold factorRule
  refine (hT.peek hopen.le).bind ?_
  rintro a b _ ⟨hseen, rfl⟩
  cases hseen with
  | behind hle ha hb =>
    cases ha <;> cases hb <;> exact hpower
  | @inside k hk =>
    dsimp only
    split
    · rename_i op hop
      split at hop <;> cases hop <;> rename_i hsymbol <;> cases hsymbol
      · exact marked_alike hT hB hopen hfree hk (plain_symbol (by decide)) _ _
      · exact marked_alike hT hB hopen hfree hk (plain_symbol (by decide)) _ _
      · exact marked_alike hT hB hopen hfree hk (plain_symbol (by decide)) _ _
    · exact hpower

theorem powerRule_alike (hr : 4 ≤ r) :
    Alike V W i (powerRule (parseWithin m)) (powerRule (parseWithin n))
      (Read V W ks i pending) := by
  unfold powerRule
  refine Alike.startOffset.bind ?_
  rintro _ _ _ ⟨rfl, rfl, rfl⟩
  refine (hB.goals i .awaited pending (Nat.le_refl i) (fun _ => hr) hopen
    (allowed_of_free hfree _)).bind ?_
  rintro base base' j hbase
  have hij := hbase.lt
  refine (hT.accept hbase.opened.le (.symbol (by decide))).bind ?_
  rintro _ _ _ (⟨hk⟩ | ⟨hk⟩)
  · have hnext := hbase.opened.step hk (plain_symbol (by decide) pending)
    refine (hB.expr (by omega) (by omega) hnext (allowed_of_free hfree .factor)).bind ?_
    rintro e _ k ⟨rfl, hlt, hopen'⟩
    exact .node (by rw [hbase.expr]) (by omega) hopen'
  · exact .pure hbase

theorem awaitedRule_alike (hr : 3 ≤ r) :
    Alike V W i (awaitedRule (parseWithin m)) (awaitedRule (parseWithin n))
      (Read V W ks i pending) := by
  unfold awaitedRule
  refine (hT.atWord hopen.le (.word (by decide))).bind ?_
  rintro _ _ _ (⟨hk⟩ | ⟨hk⟩)
  · exact marked_alike hT hB hopen hfree hk (fun _ => rfl) _ _
  · exact hB.goals i _ pending (Nat.le_refl i) (fun _ => hr) hopen (allowed_of_free hfree _)

theorem starRule_alike {plain : Goal} (hrank : rank plain < r) :
    Alike V W i (starRule (parseWithin m) plain) (starRule (parseWithin n) plain)
      (Read V W ks i pending) := by
  unfold starRule
  refine (hT.atSymbol hopen.le (.symbol (by decide))).bind ?_
  rintro _ _ _ (⟨hk⟩ | ⟨hk⟩)
  · exact marked_alike hT hB hopen hfree hk (plain_symbol (by decide)) _ _
  · exact hB.goals i _ pending (Nat.le_refl i) (fun _ => hrank) hopen (allowed_of_free hfree _)

omit hfree in
theorem tupleRule_alike {item : Goal} (hrank : rank item < r)
    (hitem : pending = [] → Allowed targets item) :
    Alike V W i (tupleRule (parseWithin m) item) (tupleRule (parseWithin n) item)
      (Read V W ks i pending) := by
  unfold tupleRule
  refine Alike.startOffset.bind ?_
  rintro _ _ _ ⟨rfl, rfl, rfl⟩
  refine (hB.goals i item pending (Nat.le_refl i) (fun _ => hrank) hopen hitem).bind ?_
  rintro first first' j hfirst
  have hij := hfirst.lt
  refine (hT.atSymbol hfirst.opened.le (.symbol (by decide))).bind ?_
  rintro _ _ _ (⟨hk⟩ | ⟨hk⟩)
  · have hitems := Alike.moreItems hT hfirst.opened fun x (hx : j < x) hxo =>
      hB.expr (by omega) (by omega) hxo hitem
    refine hitems.bind ?_
    rintro as bs k ⟨hall, hjk, hopen'⟩
    rw [List.forall₂_eq_eq_eq] at hall
    subst hall
    exact .node (by rw [hfirst.expr]) (by omega) hopen'
  · exact .pure hfirst

omit hT hB hopen hfree in
theorem atAssignment_run (c : Cursor) : ∃ b, atAssignment.run c = some (b, c) := by
  have hpeek : peek.run c = some (c.rest.head?.map (·.kind), c) := rfl
  have hsecond : peekSecond.run c = some ((c.rest.drop 1).head?.map (·.kind), c) := rfl
  unfold atAssignment
  rw [StateT.run_bind, hpeek]
  dsimp only [Option.bind_eq_bind, Option.bind_some]
  rw [StateT.run_bind, hsecond]
  dsimp only [Option.bind_eq_bind, Option.bind_some]
  split
  · exact ⟨true, rfl⟩
  · exact ⟨false, rfl⟩

/-- A name in front of `:=` is seen, or there is none. -/
inductive Assigns (ks : List LexemeKind) (i : Nat) : Bool → Bool → Nat → Prop
  | yes {s : String} (hk : ks[i]? = some (.name s)) (hk' : ks[i + 1]? = some (.symbol ":=")) :
      Assigns ks i true true i
  | no (h : ∀ s, ks[i]? = some (.name s) → ks[i + 1]? ≠ some (.symbol ":=")) :
      Assigns ks i false false i

omit hB hopen hfree in
theorem atAssignment_alike (hi : i < ks.length) :
    Alike V W i atAssignment atAssignment (Assigns ks i) := by
  unfold atAssignment
  refine (hT.peek (Nat.le_of_lt hi)).bind ?_
  rintro a b _ ⟨hseen, rfl⟩
  refine (hT.peekSecond i).bind ?_
  rintro a' b' _ ⟨hsecond, rfl⟩
  specialize hsecond hi
  cases hseen with
  | behind hle => exact absurd hi (Nat.not_lt_of_le hle)
  | @inside k hk =>
    cases hsecond with
    | @inside k' hk' =>
      split
      · rename_i hname hsymbol
        cases hname
        cases hsymbol
        exact .pure (.yes hk hk')
      · rename_i hno
        refine .pure (.no fun s hs hsymbol => ?_)
        exact hno s (hk.symm.trans hs) (hk'.symm.trans hsymbol)
    | behind hle ha hb =>
      have hnone {a : Option LexemeKind} (ha : Ender targets a) : a ≠ some (.symbol ":=") := by
        rintro rfl
        exact not_ender_symbol (by decide) ha
      split
      · exact absurd rfl (hnone ha)
      · split
        · exact absurd rfl (hnone hb)
        · exact .pure (.no fun s _ hsymbol => absurd (hsymbol.symm.trans
            (List.getElem?_eq_none hle)) nofun)

theorem namedRule_alike (hr : 17 < r) :
    Alike V W i (namedRule (parseWithin m)) (namedRule (parseWithin n))
      (Read V W ks i pending) := by
  have hplain := hB.goals i .expression pending (Nat.le_refl i) (fun _ => hr) hopen
    (allowed_of_free hfree _)
  unfold namedRule
  rcases Nat.lt_or_ge i ks.length with hi | hi
  · refine (atAssignment_alike hT hi).bind ?_
    rintro _ _ _ (⟨hk, hk'⟩ | ⟨-⟩)
    · refine .spanned ?_
      refine (hT.identifier i).bind ?_
      rintro a _ _ ⟨rfl, -, rfl⟩
      have hnext := hopen.step hk rfl
      refine (hT.expect hnext.le (.symbol (by decide))).bind ?_
      rintro _ _ _ ⟨-, rfl⟩
      have hopen' := hnext.step hk' (plain_symbol (by decide) pending)
      refine (hB.expr (by omega) (by omega) hopen' (allowed_of_free hfree .expression)).bind ?_
      rintro e _ j ⟨rfl, hlt, hj⟩
      exact .pure ⟨rfl, by omega, hj⟩
    · exact hplain
  · -- behind the window both see what may be a name and `:=`, but read neither
    have hfails {p : Parser Node} {f : String → Parser Expr} {c : Cursor} (hp : p.run c = none)
        (hname : identifier.run c = none) :
        (do if ← atAssignment then spanned (identifier >>= f) else p).run c = none := by
      obtain ⟨b, hb⟩ := atAssignment_run c
      rw [StateT.run_bind, hb]
      cases b with
      | false => exact hp
      | true => exact spanned_fails (bind_fails hname)
    obtain ⟨hp, hq⟩ := hplain.fails_at_end hi
    rcases hT.identifier i with ⟨hname, hname'⟩ | ⟨_, _, _, -, -, -, ⟨s, hk⟩, -⟩
    · exact .inl ⟨hfails hp hname, hfails hq hname'⟩
    · exact absurd (List.getElem?_eq_some_iff.mp hk).1 (Nat.not_lt_of_le hi)

end

end Stencil.Grammar
