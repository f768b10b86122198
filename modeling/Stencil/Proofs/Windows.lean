import Mathlib.Data.List.Forall2
import Stencil.Expr.Grammar

/-!
# Lexemes read in a window

A window is a stretch of lexemes in front of others. A rule that begins in it may see the first
lexeme behind it, but if the brackets of the stretch are balanced and that lexeme continues no
expression, it reads none of those behind. So two windows on lexemes of the same kinds are read
alike, wherever their lexemes stand and whatever stands behind them.
-/

namespace Stencil.Grammar

open Stencil.Expr (Lexeme LexemeKind)
open Stencil.Grammar.Parser

/-- Lexemes to be read, those behind them, and where the one before them ended. -/
structure Window where
  lexemes : List Lexeme
  behind : List Lexeme
  before : Nat

namespace Window

variable (V : Window)

def kinds : List LexemeKind := V.lexemes.map (·.kind)

/-- Where the lexemes in front of the place `i` end. -/
def stop : Nat → Nat
  | 0 => V.before
  | i + 1 => (V.lexemes[i]?.map (·.stop)).getD 0

def cursor (i : Nat) : Cursor := ⟨V.lexemes.drop i ++ V.behind, V.stop i⟩

/-- Where the lexeme at the place `i` starts. -/
def start (i : Nat) : Nat := ((V.cursor i).rest.head?.map (·.start)).getD 0

def span (i j : Nat) : Span := ⟨V.start i, V.stop j⟩

def kindAt (i : Nat) : Option LexemeKind := (V.cursor i).rest.head?.map (·.kind)

variable {V} {ks : List LexemeKind} {k : LexemeKind} {i : Nat}

theorem length_kinds (hV : V.kinds = ks) : V.lexemes.length = ks.length := by
  rw [← hV, kinds, List.length_map]

theorem cursor_of_kind (hV : V.kinds = ks) (hk : ks[i]? = some k) :
    ∃ l : Lexeme, V.lexemes[i]? = some l ∧ l.kind = k ∧
      V.cursor i = ⟨l :: (V.cursor (i + 1)).rest, V.stop i⟩ := by
  rw [← hV, kinds, List.getElem?_map] at hk
  obtain ⟨l, hl, rfl⟩ := Option.map_eq_some_iff.mp hk
  obtain ⟨hi, rfl⟩ := List.getElem?_eq_some_iff.mp hl
  refine ⟨_, hl, rfl, ?_⟩
  rw [cursor, List.drop_eq_getElem_cons hi]
  rfl

theorem kindAt_of_kind (hV : V.kinds = ks) (hk : ks[i]? = some k) : V.kindAt i = some k := by
  obtain ⟨l, -, rfl, hcursor⟩ := cursor_of_kind hV hk
  rw [kindAt, hcursor]
  rfl

theorem kindAt_of_le (hV : V.kinds = ks) (hi : ks.length ≤ i) :
    V.kindAt i = V.behind.head?.map (·.kind) := by
  rw [kindAt, cursor, List.drop_of_length_le (length_kinds hV ▸ hi), List.nil_append]

end Window

/-- The brackets still to be closed behind a lexeme, innermost first. -/
def shift (pending : List Char) : LexemeKind → Option (List Char)
  | .symbol "(" => some (')' :: pending)
  | .symbol "[" => some (']' :: pending)
  | .symbol "\x7b" => some ('\x7d' :: pending)
  | .symbol ")" => if pending.head? = some ')' then some pending.tail else none
  | .symbol "]" => if pending.head? = some ']' then some pending.tail else none
  | .symbol "\x7d" => if pending.head? = some '\x7d' then some pending.tail else none
  | _ => some pending

/-- The lexemes from the place `i` on close exactly these brackets. -/
structure Open (ks : List LexemeKind) (i : Nat) (pending : List Char) : Prop where
  le : i ≤ ks.length
  closed : (ks.drop i).foldlM shift pending = some []

namespace Open

variable {ks : List LexemeKind} {i : Nat} {pending next : List Char} {k : LexemeKind}

theorem shift_of_kind (h : Open ks i pending) (hk : ks[i]? = some k) :
    ∃ next, shift pending k = some next ∧ Open ks (i + 1) next := by
  obtain ⟨hi, rfl⟩ := List.getElem?_eq_some_iff.mp hk
  have hclosed := h.closed
  rw [List.drop_eq_getElem_cons hi, List.foldlM_cons] at hclosed
  obtain ⟨next, hnext, hrest⟩ := Option.bind_eq_some_iff.mp hclosed
  exact ⟨next, hnext, hi, hrest⟩

theorem step (h : Open ks i pending) (hk : ks[i]? = some k) (hnext : shift pending k = some next) :
    Open ks (i + 1) next := by
  obtain ⟨next', hnext', hopen⟩ := h.shift_of_kind hk
  cases hnext.symm.trans hnext'
  exact hopen

theorem lt (h : Open ks i pending) (hpending : pending ≠ []) : i < ks.length := by
  refine Nat.lt_of_le_of_ne h.le fun hi => hpending ?_
  have hclosed := h.closed
  rw [hi, List.drop_length] at hclosed
  exact Option.some.inj hclosed

end Open

/-- Nothing, or a lexeme that ends an expression; `in` ends only targets. -/
inductive Ender (targets : Bool) : Option LexemeKind → Prop
  | nothing : Ender targets none
  | closer : Ender targets (some (.symbol ")"))
  | colon : Ender targets (some (.symbol ":"))
  | word {s : String} (h : s = "as" ∨ s = "in" ∧ targets = true) : Ender targets (some (.name s))

/-- No expression goes on in these lexemes. A colon may end an anonymous function's parameters,
so nothing may be read behind it. -/
inductive Ends (targets : Bool) : List Lexeme → Prop
  | nothing : Ends targets []
  | closer {l : Lexeme} {ls : List Lexeme} (h : l.kind = .symbol ")") : Ends targets (l :: ls)
  | colon {l m : Lexeme} {ls : List Lexeme} (h : l.kind = .symbol ":") (h' : m.kind = .newline) :
      Ends targets (l :: m :: ls)
  | word {l : Lexeme} {ls : List Lexeme} {s : String} (hs : s = "as" ∨ s = "in" ∧ targets = true)
      (h : l.kind = .name s) : Ends targets (l :: ls)

theorem Ends.ender {targets : Bool} {ls : List Lexeme} (h : Ends targets ls) :
    Ender targets (ls.head?.map (·.kind)) := by
  cases h with
  | nothing => exact .nothing
  | closer h =>
    rw [List.head?_cons, Option.map_some, h]
    exact .closer
  | colon h _ =>
    rw [List.head?_cons, Option.map_some, h]
    exact .colon
  | word hs h =>
    rw [List.head?_cons, Option.map_some, h]
    exact .word hs

theorem bind_fails {α β : Type} {p : Parser α} {f : α → Parser β} {c : Cursor}
    (h : p.run c = none) : (p >>= f).run c = none := by
  rw [StateT.run_bind, h]
  rfl

theorem spanned_fails {p : Parser Expr} {c : Cursor} (h : p.run c = none) :
    (spanned p).run c = none := by
  have hstart : startOffset.run c = some ((c.rest.head?.map (·.start)).getD 0, c) := rfl
  rw [Parser.spanned, StateT.run_bind, hstart, Option.bind_eq_bind, Option.bind_some]
  exact bind_fails h

/-- Two windows on lexemes of the kinds `ks`, each in front of what ends an expression. -/
structure Twins (targets : Bool) (ks : List LexemeKind) (V W : Window) : Prop where
  left : V.kinds = ks
  right : W.kinds = ks
  leftEnds : Ends targets V.behind
  rightEnds : Ends targets W.behind

/-- At the place `i` both parsers fail, or both give results and come to one place in the same
way. -/
def Alike {α β : Type} (V W : Window) (i : Nat) (p : Parser α) (q : Parser β)
    (T : α → β → Nat → Prop) : Prop :=
  (p.run (V.cursor i) = none ∧ q.run (W.cursor i) = none) ∨
    ∃ a b j, p.run (V.cursor i) = some (a, V.cursor j) ∧ q.run (W.cursor i) = some (b, W.cursor j) ∧
      T a b j

namespace Alike

variable {α β γ δ : Type} {V W : Window} {i : Nat} {p : Parser α} {q : Parser β}
  {f : α → Parser γ} {g : β → Parser δ} {T : α → β → Nat → Prop} {U : γ → δ → Nat → Prop}

theorem mono {T' : α → β → Nat → Prop} (h : Alike V W i p q T) (hT : ∀ a b j, T a b j → T' a b j) :
    Alike V W i p q T' := by
  rcases h with h | ⟨a, b, j, hp, hq, h⟩
  · exact .inl h
  · exact .inr ⟨a, b, j, hp, hq, hT a b j h⟩

theorem bind (h : Alike V W i p q T) (hnext : ∀ a b j, T a b j → Alike V W j (f a) (g b) U) :
    Alike V W i (p >>= f) (q >>= g) U := by
  rcases h with ⟨hp, hq⟩ | ⟨a, b, j, hp, hq, h⟩
  · exact .inl ⟨bind_fails hp, bind_fails hq⟩
  · have hl : (p >>= f).run (V.cursor i) = (f a).run (V.cursor j) := by
      rw [StateT.run_bind, hp]
      rfl
    have hr : (q >>= g).run (W.cursor i) = (g b).run (W.cursor j) := by
      rw [StateT.run_bind, hq]
      rfl
    rw [Alike, hl, hr]
    exact hnext a b j h

theorem pure {a : α} {b : β} (h : T a b i) : Alike V W i (pure a) (pure b) T :=
  .inr ⟨a, b, i, rfl, rfl, h⟩

theorem check (b : Bool) (h : Alike V W i p q T) :
    Alike V W i
      (if b = true then do
        let r ← (failure : Parser PUnit)
        (fun _ => p) r
      else p)
      (if b = true then do
        let r ← (failure : Parser PUnit)
        (fun _ => q) r
      else q) T := by
  cases b with
  | false => exact h
  | true => exact .inl ⟨rfl, rfl⟩

theorem failure : Alike V W i (failure : Parser α) (failure : Parser β) T := .inl ⟨rfl, rfl⟩

theorem orElse {p' : Parser α} {q' : Parser β} (h : Alike V W i p q T)
    (h' : Alike V W i p' q' T) : Alike V W i (p <|> p') (q <|> q') T := by
  have hrun {γ : Type} (p p' : Parser γ) (c : Cursor) :
      (p <|> p').run c = (p.run c <|> p'.run c) := rfl
  rcases h with ⟨hp, hq⟩ | ⟨a, b, j, hp, hq, h⟩
  · rw [Alike, hrun, hrun, hp, hq]
    exact h'
  · exact .inr ⟨a, b, j, by rw [hrun, hp]; rfl, by rw [hrun, hq]; rfl, h⟩

theorem get : Alike V W i (get : Parser Cursor) (MonadState.get : Parser Cursor)
    fun c d j => c = V.cursor i ∧ d = W.cursor i ∧ i = j :=
  .inr ⟨_, _, i, rfl, rfl, rfl, rfl, rfl⟩

theorem startOffset : Alike V W i startOffset startOffset
    fun a b j => a = V.start i ∧ b = W.start i ∧ i = j :=
  .inr ⟨_, _, i, rfl, rfl, rfl, rfl, rfl⟩

end Alike

section

variable {targets : Bool} {ks : List LexemeKind} {V W : Window} {i : Nat} {k : LexemeKind}

inductive Seen (targets : Bool) (ks : List LexemeKind) (i : Nat) :
    Option LexemeKind → Option LexemeKind → Prop
  | inside {k : LexemeKind} (hk : ks[i]? = some k) : Seen targets ks i (some k) (some k)
  | behind {a b : Option LexemeKind} (hi : ks.length ≤ i) (ha : Ender targets a)
      (hb : Ender targets b) : Seen targets ks i a b

/-- A lexeme that is looked for is there, or it is not. -/
inductive Here (ks : List LexemeKind) (i : Nat) (k : LexemeKind) : Bool → Bool → Nat → Prop
  | yes (hk : ks[i]? = some k) : Here ks i k true true i
  | no (hk : ks[i]? ≠ some k) : Here ks i k false false i

/-- A lexeme that is looked for is there and is read, or it is not. -/
inductive Accepted (ks : List LexemeKind) (i : Nat) (k : LexemeKind) : Bool → Bool → Nat → Prop
  | yes (hk : ks[i]? = some k) : Accepted ks i k true true (i + 1)
  | no (hk : ks[i]? ≠ some k) : Accepted ks i k false false i

/-- The lexeme may be looked for at the place `i`, since it is no ender or the place is inside. -/
def Tells (targets : Bool) (ks : List LexemeKind) (i : Nat) (k : LexemeKind) : Prop :=
  i < ks.length ∨ ¬ Ender targets (some k)

theorem not_ender_symbol {s : String} (hs : s ≠ ")" ∧ s ≠ ":") :
    ¬ Ender targets (some (.symbol s)) := by
  intro hender
  generalize hk : some (LexemeKind.symbol s) = a at hender
  cases hender with
  | nothing | word _ => cases hk
  | closer => exact hs.1 (LexemeKind.symbol.inj (Option.some.inj hk))
  | colon => exact hs.2 (LexemeKind.symbol.inj (Option.some.inj hk))

theorem Tells.symbol {s : String} (hs : s ≠ ")" ∧ s ≠ ":") : Tells targets ks i (.symbol s) :=
  .inr (not_ender_symbol hs)

theorem Tells.word {s : String} (hs : s ≠ "as" ∧ s ≠ "in") : Tells targets ks i (.name s) := by
  refine .inr fun hender => ?_
  cases hender with
  | word h =>
    rcases h with rfl | ⟨rfl, -⟩
    · exact hs.1 rfl
    · exact hs.2 rfl

namespace Twins

variable (hT : Twins targets ks V W)

include hT

theorem seen_at (i : Nat) (hi : i ≤ ks.length) : Seen targets ks i (V.kindAt i) (W.kindAt i) := by
  rcases Nat.lt_or_eq_of_le hi with hi | rfl
  · have hk := List.getElem?_eq_getElem hi
    rw [Window.kindAt_of_kind hT.left hk, Window.kindAt_of_kind hT.right hk]
    exact .inside hk
  · rw [Window.kindAt_of_le hT.left (Nat.le_refl _),
      Window.kindAt_of_le hT.right (Nat.le_refl _)]
    exact .behind (Nat.le_refl _) hT.leftEnds.ender hT.rightEnds.ender

theorem peek (hi : i ≤ ks.length) :
    Alike V W i peek peek fun a b j => Seen targets ks i a b ∧ i = j :=
  .inr ⟨_, _, i, rfl, rfl, hT.seen_at i hi, rfl⟩

theorem peekSecond (i : Nat) : Alike V W i peekSecond peekSecond
    fun a b j => (i < ks.length → Seen targets ks (i + 1) a b) ∧ i = j := by
  have hsecond {V : Window} (hV : V.kinds = ks) (hi : i < ks.length) :
      ((V.cursor i).rest.drop 1).head?.map (·.kind) = V.kindAt (i + 1) := by
    obtain ⟨l, -, -, hcursor⟩ := Window.cursor_of_kind hV (List.getElem?_eq_getElem hi)
    rw [hcursor]
    rfl
  refine .inr ⟨_, _, i, rfl, rfl, fun hi => ?_, rfl⟩
  rw [hsecond hT.left hi, hsecond hT.right hi]
  exact hT.seen_at (i + 1) hi

theorem next (hk : ks[i]? = some k) :
    Alike V W i next next fun a b j => a = k ∧ b = k ∧ j = i + 1 := by
  have hnext {V : Window} (hV : V.kinds = ks) :
      Parser.next.run (V.cursor i) = some (k, V.cursor (i + 1)) := by
    obtain ⟨l, hl, rfl, hcursor⟩ := Window.cursor_of_kind hV hk
    rw [hcursor]
    have hstop : V.stop (i + 1) = l.stop := by rw [Window.stop, hl]; rfl
    rw [Window.cursor, hstop]
    rfl
  exact .inr ⟨k, k, i + 1, hnext hT.left, hnext hT.right, rfl, rfl, rfl⟩

theorem here (hi : i ≤ ks.length) (hk : Tells targets ks i k) :
    Here ks i k (decide (V.kindAt i = some k)) (decide (W.kindAt i = some k)) i := by
  have hnone {a : Option LexemeKind} (hi : ks.length ≤ i) (ha : Ender targets a) : a ≠ some k := by
    rintro rfl
    rcases hk with hlt | hender
    · exact absurd hi (Nat.not_le_of_lt hlt)
    · exact hender ha
  have hseen := hT.seen_at i hi
  generalize V.kindAt i = a at hseen ⊢
  generalize W.kindAt i = b at hseen ⊢
  cases hseen with
  | @inside k' hseen =>
    by_cases heq : k' = k
    · simpa [heq] using Here.yes (heq ▸ hseen)
    · simpa [heq] using Here.no (i := i) (by simpa [hseen] using heq)
  | behind hle ha hb =>
    rw [decide_eq_false (hnone hle ha), decide_eq_false (hnone hle hb)]
    exact .no (by simp [List.getElem?_eq_none hle])

theorem atKind (hi : i ≤ ks.length) (hk : Tells targets ks i k) {p : Parser Bool}
    (hp : ∀ c : Cursor, p.run c = some (decide (c.rest.head?.map (·.kind) = some k), c)) :
    Alike V W i p p (Here ks i k) := by
  have hhere := hT.here hi hk
  exact .inr ⟨_, _, i, hp _, hp _, hhere⟩

theorem atSymbol (hi : i ≤ ks.length) {s : String} (hs : Tells targets ks i (.symbol s)) :
    Alike V W i (atSymbol s) (atSymbol s) (Here ks i (.symbol s)) :=
  hT.atKind hi hs fun c => by simp [Parser.atSymbol, Parser.peek]

theorem atWord (hi : i ≤ ks.length) {s : String} (hs : Tells targets ks i (.name s)) :
    Alike V W i (atWord s) (atWord s) (Here ks i (.name s)) :=
  hT.atKind hi hs fun c => by simp [Parser.atWord, Parser.peek]

theorem accept (hi : i ≤ ks.length) {s : String} (hs : Tells targets ks i (.symbol s)) :
    Alike V W i (accept s) (accept s) (Accepted ks i (.symbol s)) := by
  unfold Parser.accept
  refine (hT.atSymbol hi hs).bind ?_
  rintro _ _ _ (⟨hk⟩ | ⟨hk⟩)
  · refine (hT.next hk).bind ?_
    rintro _ _ _ ⟨-, -, rfl⟩
    exact .pure (.yes hk)
  · exact .pure (.no hk)

theorem acceptWord (hi : i ≤ ks.length) {s : String} (hs : Tells targets ks i (.name s)) :
    Alike V W i (acceptWord s) (acceptWord s) (Accepted ks i (.name s)) := by
  unfold Parser.acceptWord
  refine (hT.atWord hi hs).bind ?_
  rintro _ _ _ (⟨hk⟩ | ⟨hk⟩)
  · refine (hT.next hk).bind ?_
    rintro _ _ _ ⟨-, -, rfl⟩
    exact .pure (.yes hk)
  · exact .pure (.no hk)

theorem expect (hi : i ≤ ks.length) {s : String} (hs : Tells targets ks i (.symbol s)) :
    Alike V W i (expect s) (expect s) fun _ _ j => ks[i]? = some (.symbol s) ∧ j = i + 1 := by
  unfold Parser.expect
  refine (hT.accept hi hs).bind ?_
  rintro _ _ _ (⟨hk⟩ | ⟨hk⟩)
  · exact .pure ⟨hk, rfl⟩
  · exact .failure

theorem expectWord (hi : i ≤ ks.length) {s : String} (hs : Tells targets ks i (.name s)) :
    Alike V W i (expectWord s) (expectWord s) fun _ _ j => ks[i]? = some (.name s) ∧ j = i + 1 := by
  unfold Parser.expectWord
  refine (hT.acceptWord hi hs).bind ?_
  rintro _ _ _ (⟨hk⟩ | ⟨hk⟩)
  · exact .pure ⟨hk, rfl⟩
  · exact .failure

theorem identifier (i : Nat) :
    Alike V W i identifier identifier fun a b j =>
      a = b ∧ (∃ s, ks[i]? = some (.name s)) ∧ j = i + 1 := by
  have hfails {V : Window} (hV : V.kinds = ks) (hends : Ends targets V.behind)
      (hle : ks.length ≤ i) : Parser.identifier.run (V.cursor i) = none := by
    have hcursor : V.cursor i = ⟨V.behind, V.stop i⟩ := by
      rw [Window.cursor, List.drop_of_length_le (Window.length_kinds hV ▸ hle), List.nil_append]
    rw [hcursor]
    generalize V.behind = ls at hends
    cases hends with
    | nothing => rfl
    | @closer l _ h | @colon l _ _ h _ =>
      obtain ⟨kind, start, stop⟩ := l
      obtain rfl : kind = _ := h
      rfl
    | @word l _ _ hs h =>
      obtain ⟨kind, start, stop⟩ := l
      obtain rfl : kind = _ := h
      rcases hs with rfl | ⟨rfl, -⟩ <;> rfl
  rcases Nat.lt_or_ge i ks.length with hlt | hle
  · unfold Parser.identifier
    have hk := List.getElem?_eq_getElem hlt
    refine (hT.next hk).bind ?_
    rintro _ _ _ ⟨rfl, rfl, rfl⟩
    cases hkind : ks[i] with
    | name s =>
      dsimp only
      split
      · exact .failure
      · exact .pure ⟨rfl, ⟨s, by rw [hk, hkind]⟩, rfl⟩
    | _ => exact .failure
  · exact .inl ⟨hfails hT.left hT.leftEnds hle, hfails hT.right hT.rightEnds hle⟩

end Twins

end

section

variable {α β : Type} {V W : Window} {ks : List LexemeKind} {i : Nat} {p : Parser (Option α)}
  {q : Parser (Option β)}

/-- One round of a repetition from the place `x`: it reads something and goes on, or it ends. -/
inductive Round (rel : α → β → Prop) (Inv : Nat → Prop) (Last : Nat → Nat → Prop) (x : Nat) :
    Option α → Option β → Nat → Prop
  | more {a : α} {b : β} {y : Nat} (hrel : rel a b) (hlt : x < y) (hinv : Inv y) :
      Round rel Inv Last x (some a) (some b) y
  | last {y : Nat} (hlast : Last x y) : Round rel Inv Last x none none y

/-- All rounds from the place `x`, the last of them from some place `y`. -/
def Rounds (rel : α → β → Prop) (Inv : Nat → Prop) (Last : Nat → Nat → Prop) (x : Nat)
    (as : List α) (bs : List β) (j : Nat) : Prop :=
  List.Forall₂ rel as bs ∧ ∃ y, x ≤ y ∧ Inv y ∧ Last y j ∧ (as = [] → y = x)

variable {rel : α → β → Prop} {Inv : Nat → Prop} {Last : Nat → Nat → Prop}

theorem Alike.repeatFrom (hle : ∀ x, Inv x → x ≤ ks.length)
    (hround : ∀ x, i ≤ x → Inv x → Alike V W x p q (Round rel Inv Last x)) {m n : Nat}
    (hm : ks.length - i < m) (hn : ks.length - i < n) (hi : Inv i) :
    Alike V W i (repeatFrom p m) (repeatFrom q n) (Rounds rel Inv Last i) := by
  induction m generalizing i n with
  | zero => exact absurd hm (Nat.not_lt_zero _)
  | succ m ih =>
    obtain ⟨n, rfl⟩ : ∃ n', n = n' + 1 := ⟨n - 1, by omega⟩
    unfold Parser.repeatFrom
    refine (hround i (Nat.le_refl i) hi).bind ?_
    rintro _ _ j (⟨hrel, hlt, hinv⟩ | ⟨hlast⟩)
    · have hj := hle j hinv
      have hrest := ih (fun x hx => hround x (by omega)) (by omega) (by omega : _ < n) hinv
      refine hrest.bind ?_
      rintro as bs k ⟨hall, y, hy, hinv', hlast, -⟩
      exact .pure ⟨.cons hrel hall, y, by omega, hinv', hlast, nofun⟩
    · exact .pure ⟨.nil, i, Nat.le_refl i, hi, hlast, fun _ => rfl⟩

theorem Alike.repeated {targets : Bool} (rel : α → β → Prop) (Inv : Nat → Prop)
    (Last : Nat → Nat → Prop) (hT : Twins targets ks V W)
    (hle : ∀ x, Inv x → x ≤ ks.length)
    (hround : ∀ x, i ≤ x → Inv x → Alike V W x p q (Round rel Inv Last x)) (hi : Inv i) :
    Alike V W i (repeated p) (repeated q) (Rounds rel Inv Last i) := by
  have hlength {V : Window} (hV : V.kinds = ks) :
      ks.length - i < (V.cursor i).rest.length + 1 := by
    simp only [Window.cursor, List.length_append, List.length_drop, Window.length_kinds hV]
    omega
  unfold Parser.repeated
  refine Alike.get.bind ?_
  rintro _ _ _ ⟨rfl, rfl, rfl⟩
  exact .repeatFrom hle hround (hlength hT.left) (hlength hT.right) hi

/-- The brackets `pending` are still to be closed at `j`, which is not in front of `i`. -/
def Kept (ks : List LexemeKind) (i : Nat) (pending : List Char) (rel : α → β → Prop) (a : α) (b : β)
    (j : Nat) : Prop :=
  rel a b ∧ i ≤ j ∧ Open ks j pending

/-- Something was read, and the brackets `pending` are still to be closed at `j`. -/
def Moved (ks : List LexemeKind) (i : Nat) (pending : List Char) (rel : α → β → Prop) (a : α) (b : β)
    (j : Nat) : Prop :=
  rel a b ∧ i < j ∧ Open ks j pending

end

section

variable {α β : Type} {targets : Bool} {V W : Window} {ks : List LexemeKind} {i : Nat}
  {pending : List Char} {rel : α → β → Prop} {p : Parser α} {q : Parser β}

theorem Alike.attempt {T : α → β → Nat → Prop} {U : Option α → Option β → Nat → Prop}
    (h : Alike V W i p q T) (hsome : ∀ a b j, T a b j → U (some a) (some b) j)
    (hnone : U none none i) : Alike V W i (attempt p) (attempt q) U := by
  unfold Parser.attempt
  refine .orElse ?_ (.pure hnone)
  rcases h with ⟨hp, hq⟩ | ⟨a, b, j, hp, hq, h⟩
  · exact .inl ⟨by rw [StateT.run_map, hp]; rfl, by rw [StateT.run_map, hq]; rfl⟩
  · exact .inr ⟨some a, some b, j, by rw [StateT.run_map, hp]; rfl,
      by rw [StateT.run_map, hq]; rfl, hsome a b j h⟩

theorem Alike.moreItems (hT : Twins targets ks V W) (hi : Open ks i pending)
    (hitem : ∀ x, i < x → Open ks x pending → Alike V W x p q (Moved ks x pending rel)) :
    Alike V W i (moreItems p) (moreItems q) (Kept ks i pending (List.Forall₂ rel)) := by
  unfold Parser.moreItems
  refine (Alike.repeated rel (fun x => Open ks x pending)
    (fun x y => x ≤ y ∧ Open ks y pending) hT (fun x h => h.le) ?_ hi).mono ?_
  · intro x hx hopen
    refine (hT.accept hopen.le (.symbol (by decide))).bind ?_
    rintro _ _ _ (⟨hk⟩ | ⟨hk⟩)
    · have hnext := hopen.step hk rfl
      refine (hitem (x + 1) (by omega) hnext).attempt ?_ ?_
      · rintro a b j ⟨hrel, hlt, hj⟩
        exact .more hrel (by omega) hj
      · exact .last ⟨by omega, hnext⟩
    · exact .pure (.last ⟨Nat.le_refl x, hopen⟩)
  · rintro as bs j ⟨hall, y, hy, -, ⟨hj, hopen⟩, -⟩
    exact ⟨hall, by omega, hopen⟩

theorem Alike.itemsUntil (hT : Twins targets ks V W) {closer : String} {c : Char}
    (hcloser : shift (c :: pending) (.symbol closer) = some pending) (hi : Open ks i (c :: pending))
    (hitem : ∀ x, i ≤ x → Open ks x (c :: pending) →
      Alike V W x p q (Moved ks x (c :: pending) rel)) :
    Alike V W i (itemsUntil closer p) (itemsUntil closer q)
      (Moved ks i pending (List.Forall₂ rel)) := by
  have hinside {x : Nat} (hopen : Open ks x (c :: pending)) {k : LexemeKind} :
      Tells targets ks x k := .inl (hopen.lt (List.cons_ne_nil c pending))
  unfold Parser.itemsUntil
  refine (Alike.repeated rel (fun x => Open ks x (c :: pending))
    (fun x y => x < y ∧ Open ks y pending) hT (fun x h => h.le) ?_ hi).mono ?_
  · intro x hx hopen
    refine (hT.accept hopen.le (hinside hopen)).bind ?_
    rintro _ _ _ (⟨hk⟩ | ⟨hk⟩)
    · exact .pure (.last ⟨by omega, hopen.step hk hcloser⟩)
    · refine (hitem x hx hopen).bind ?_
      rintro a b j ⟨hrel, hlt, hj⟩
      refine (hT.accept hj.le (.symbol (by decide))).bind ?_
      rintro _ _ _ (⟨hk⟩ | ⟨hk⟩)
      · exact .pure (.more hrel (by omega) (hj.step hk rfl))
      · refine (hT.atSymbol hj.le (hinside hj)).bind ?_
        rintro _ _ _ (⟨hk⟩ | ⟨hk⟩)
        · exact .pure (.more hrel (by omega) hj)
        · exact .failure
  · rintro as bs j ⟨hall, y, hy, -, ⟨hj, hopen⟩, -⟩
    exact ⟨hall, by omega, hopen⟩

end

end Stencil.Grammar
