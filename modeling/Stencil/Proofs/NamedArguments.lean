import Mathlib.Data.List.Basic
import Stencil.Proofs.Descent
import Stencil.Proofs.TwinScopes

/-!
# Arguments given by name

A function knows its parameters by their labels. An argument given under the label of a parameter
binds it just as an argument at its place does; under any other name, be it the one the function
was written with, an argument binds no parameter. `Accepts` says which calls can be bound, and
`callOf` what they bind: both look at what each parameter is given, not at the order in which
arguments are taken.
-/

namespace Stencil

theorem Expr.nodup_of_firstRepeated {names : List String} (h : firstRepeated names = none) :
    names.Nodup := by
  induction names with
  | nil => exact .nil
  | cons n names ih =>
    unfold firstRepeated at h
    split at h
    · cases h
    · rename_i hfresh
      exact List.nodup_cons.mpr ⟨fun hn => hfresh (List.contains_iff_mem.mpr hn), ih h⟩

namespace BindingsOf

variable {κ : Type} [DecidableEq κ] {b b' : BindingsOf κ} {k : κ}

theorem get?_append : (b ++ b').get? k = (b.get? k).or (b'.get? k) := List.lookup_append

theorem get?_eq_none : b.get? k = none ↔ k ∉ b.keys := by
  rw [← Option.not_isSome_iff_eq_none, get?_isSome]
  unfold keys
  refine not_congr ⟨?_, ?_⟩
  · rintro ⟨v, hv⟩
    exact List.mem_map.mpr ⟨(k, v), hv, rfl⟩
  · intro hk
    obtain ⟨e, he, rfl⟩ := List.mem_map.mp hk
    exact ⟨e.2, he⟩

theorem mem_of_get? {v : Value} (h : b.get? k = some v) : (k, v) ∈ b := by
  obtain ⟨l, r, hsplit, -⟩ := List.lookup_eq_some_iff.mp h
  exact hsplit ▸ List.mem_append_right _ List.mem_cons_self

theorem get?_of_mem {v : Value} (hb : b.keys.Nodup) (hv : (k, v) ∈ b) : b.get? k = some v := by
  induction b with
  | nil => cases hv
  | cons e b ih =>
    obtain ⟨k', w⟩ := e
    rw [get?_cons]
    obtain ⟨hfresh, hb⟩ := List.nodup_cons.mp hb
    rcases List.mem_cons.mp hv with heq | hv
    · cases heq
      exact if_pos rfl
    · have hk : k ≠ k' := fun hk => hfresh (hk ▸ List.mem_map.mpr ⟨(k, v), hv, rfl⟩)
      rw [if_neg hk]
      exact ih hb hv

end BindingsOf

namespace Closure

variable {c : Closure}

theorem label_injective : Function.Injective label := fun p q h => by
  have hlist := congrArg String.toList h
  unfold label at hlist
  rw [String.toList_append, String.toList_append] at hlist
  exact String.toList_inj.mp (List.append_cancel_left hlist)

def named? (c : Closure) (key : String) : Option String := c.nameable.find? fun p => label p = key

theorem named?_eq_some {key p : String} :
    c.named? key = some p ↔ p ∈ c.nameable ∧ label p = key := by
  have hfound {q : String} (h : c.named? key = some q) : q ∈ c.nameable ∧ label q = key :=
    ⟨List.mem_of_find?_eq_some h, by simpa using List.find?_some h⟩
  refine ⟨hfound, ?_⟩
  rintro ⟨hp, rfl⟩
  cases hq : c.named? (label p) with
  | none =>
    have hnone := List.find?_eq_none.mp hq p hp
    exact absurd (decide_eq_true rfl) hnone
  | some q => rw [label_injective (hfound hq).2]

theorem named?_label {p : String} (hp : p ∈ c.nameable) : c.named? (label p) = some p :=
  named?_eq_some.mpr ⟨hp, rfl⟩

/-- The arguments given by name that bind parameters, under the names of these. -/
def placed (c : Closure) (keywords : Bindings) : Bindings :=
  keywords.filterMap fun e => (c.named? e.1).map (·, e.2)

def unplaced (c : Closure) (keywords : Bindings) : Bindings :=
  keywords.filter fun e => (c.named? e.1).isNone

theorem takeKeyword_eq {keywords bound spare : Bindings} {e : String × Value}
    (hspare : c.parameters.restKeywords = none → spare = []) :
    c.takeKeyword keywords (bound, spare) e =
      match c.named? e.1 with
      | some p =>
        if (bound.get? p).isSome then
          .error (c.fault ("got multiple values for argument '" ++ e.1 ++ "'"))
        else .ok (bound ++ [(p, e.2)], spare)
      | none =>
        if c.parameters.restKeywords.isNone then .error (c.misplaced keywords e.1)
        else .ok (bound, spare ++ [e]) := by
  unfold takeKeyword bindKeyword named?
  have hroom : (c.parameters.restKeywords.isNone && !spare.isEmpty) = false := by
    cases hrest : c.parameters.restKeywords with
    | none => rw [hspare hrest]; rfl
    | some _ => rfl
  cases c.nameable.find? fun p => label p = e.1 with
  | some p =>
    dsimp only
    split
    · rfl
    · change (if (c.parameters.restKeywords.isNone && !spare.isEmpty) = true then _ else _) = _
      rw [hroom]
      rfl
  | none =>
    have hfull : (spare ++ [e]).isEmpty = false := List.isEmpty_eq_false_iff.mpr (by simp)
    change (if (c.parameters.restKeywords.isNone && !(spare ++ [e]).isEmpty) = true then _ else _) =
      _
    rw [hfull, Bool.not_false, Bool.and_true]
    rfl

/-- Arguments given by name are taken where no parameter is bound twice and every name is known,
or collected. -/
theorem takeKeywords_ok_iff {keywords given : Bindings} (hgiven : given.keys.Nodup)
    {bound spare : Bindings} {taken : Bindings × Bindings}
    (hspare : c.parameters.restKeywords = none → spare = []) :
    given.foldlM (c.takeKeyword keywords) (bound, spare) = .ok taken ↔
      (∀ e ∈ given, ∀ p, c.named? e.1 = some p → bound.get? p = none) ∧
      (c.parameters.restKeywords.isSome = true ∨ ∀ e ∈ given, (c.named? e.1).isSome = true) ∧
      taken = (bound ++ c.placed given, spare ++ c.unplaced given) := by
  induction given generalizing bound spare with
  | nil =>
    simp only [List.foldlM_nil, placed, unplaced, List.filterMap_nil, List.filter_nil,
      List.append_nil, List.not_mem_nil, false_implies, implies_true, or_true, true_and]
    exact ⟨fun h => (Except.ok.inj h).symm, fun h => h ▸ rfl⟩
  | cons e given ih =>
    obtain ⟨hfresh, hgiven⟩ := List.nodup_cons.mp hgiven
    rw [List.foldlM_cons, takeKeyword_eq hspare, List.forall_mem_cons, List.forall_mem_cons]
    cases hnamed : c.named? e.1 with
    | none =>
      have hplaced : c.placed (e :: given) = c.placed given := by simp [placed, hnamed]
      have hunplaced : c.unplaced (e :: given) = e :: c.unplaced given := by
        simp [unplaced, hnamed]
      rw [hplaced, hunplaced]
      cases hrest : c.parameters.restKeywords with
      | none =>
        refine iff_of_false nofun ?_
        rintro ⟨-, h | h, -⟩
        · cases h
        · cases h.1
      | some name =>
        refine (ih hgiven (by rw [hrest]; nofun)).trans ?_
        rw [hrest, List.append_assoc, List.singleton_append]
        simp only [Option.isSome_some, true_or, true_and, reduceCtorEq, false_implies,
          implies_true]
    | some p =>
      have hplaced : c.placed (e :: given) = (p, e.2) :: c.placed given := by
        simp [placed, hnamed]
      have hunplaced : c.unplaced (e :: given) = c.unplaced given := by simp [unplaced, hnamed]
      rw [hplaced, hunplaced]
      dsimp only
      by_cases hbound : (bound.get? p).isSome = true
      · rw [if_pos hbound]
        refine iff_of_false nofun ?_
        rintro ⟨⟨h, -⟩, -⟩
        rw [h p rfl] at hbound
        cases hbound
      · rw [if_neg hbound]
        refine (ih hgiven hspare).trans ?_
        have hfree : bound.get? p = none := Option.not_isSome_iff_eq_none.mp hbound
        -- no later argument is for `p`, as its name would be the same
        have hlater : (∀ e' ∈ given, ∀ q, c.named? e'.1 = some q →
            (bound ++ [(p, e.2)]).get? q = none) ↔
              ∀ e' ∈ given, ∀ q, c.named? e'.1 = some q → bound.get? q = none := by
          refine forall₂_congr fun e' he' => forall₂_congr fun q hq => ?_
          have hne : q ≠ p := by
            rintro rfl
            have hsame := (named?_eq_some.mp hq).2.symm.trans (named?_eq_some.mp hnamed).2
            exact hfresh (List.mem_map.mpr ⟨e', he', hsame⟩)
          rw [BindingsOf.get?_append, BindingsOf.get?_cons, if_neg hne]
          exact iff_of_eq (congrArg (· = none) (Option.or_none ..))
        rw [hlater, List.append_assoc, List.singleton_append]
        simp only [Option.some.injEq, forall_eq', hfree, true_and, Option.isSome_some]

/-- What names are bound to when those without a value were given their defaults. -/
def filledUp (names : List String) (defaults bound : Bindings) : Bindings :=
  bound ++ (names.filter fun p => (bound.get? p).isNone).filterMap fun p =>
    (defaults.get? p).map (p, ·)

theorem fillDefaults_ok_iff {kind : String} {names : List String}
    {defaults bound bound' : Bindings} :
    c.fillDefaults kind names defaults bound = .ok bound' ↔
      (∀ p ∈ names, ((bound.get? p).or (defaults.get? p)).isSome = true) ∧
      bound' = filledUp names defaults bound := by
  unfold fillDefaults
  dsimp only
  have hlacking : (((names.filter fun p => (bound.get? p).isNone).filter fun p =>
      (defaults.get? p).isNone).isEmpty = true) ↔
        ∀ p ∈ names, ((bound.get? p).or (defaults.get? p)).isSome = true := by
    rw [List.isEmpty_iff, List.filter_filter, List.filter_eq_nil_iff]
    refine forall₂_congr fun p _ => ?_
    cases bound.get? p <;> cases defaults.get? p <;> simp
  by_cases hall : ∀ p ∈ names, ((bound.get? p).or (defaults.get? p)).isSome = true
  · rw [if_pos (hlacking.mpr hall)]
    exact ⟨fun h => ⟨hall, (Except.ok.inj h).symm⟩, fun h => congrArg Except.ok h.2.symm⟩
  · rw [if_neg fun h => hall (hlacking.mp h)]
    exact iff_of_false nofun fun h => hall h.1

theorem get?_filterMap {names : List String} {b : Bindings} {p : String} :
    BindingsOf.get? (names.filterMap fun q => (b.get? q).map (q, ·)) p =
      if p ∈ names then b.get? p else none := by
  induction names with
  | nil => rfl
  | cons q names ih =>
    by_cases hq : p = q
    · subst hq
      rw [if_pos List.mem_cons_self]
      cases hb : b.get? p with
      | none =>
        rw [List.filterMap_cons_none (by rw [hb]; rfl), ih, hb, ite_self]
      | some v =>
        rw [List.filterMap_cons_some (by rw [hb]; rfl), BindingsOf.get?_cons, if_pos rfl]
    · have hmem : p ∈ q :: names ↔ p ∈ names := by simp [hq]
      rw [ite_congr (propext hmem) (fun _ => rfl) fun _ => rfl, ← ih]
      cases hb : b.get? q with
      | none => rw [List.filterMap_cons_none (by rw [hb]; rfl)]
      | some v =>
        rw [List.filterMap_cons_some (by rw [hb]; rfl), BindingsOf.get?_cons, if_neg hq]

theorem get?_filledUp {names : List String} {defaults bound : Bindings} {p : String} :
    (filledUp names defaults bound).get? p =
      (bound.get? p).or (if p ∈ names then defaults.get? p else none) := by
  unfold filledUp
  rw [BindingsOf.get?_append, get?_filterMap]
  cases hb : bound.get? p with
  | some v => rfl
  | none =>
    rw [Option.none_or, Option.none_or]
    refine ite_congr (propext ?_) (fun _ => rfl) fun _ => rfl
    rw [List.mem_filter, hb]
    exact and_iff_left rfl

def default? (c : Closure) (p : String) : Option Value :=
  if p ∈ c.places then c.placeDefaults.get? p else BindingsOf.get? c.keywordDefaults p

/-- What a call makes of a parameter: the argument at its place, or the one given under its
label, or its default. -/
def given? (c : Closure) (args : List Value) (keywords : Bindings) (p : String) : Option Value :=
  (BindingsOf.get? (c.places.zip args ++ c.placed keywords) p).or (c.default? p)

/-- A function accepts a call where all arguments have a parameter, or are collected, and every
parameter has a value and none has two. -/
structure Accepts (c : Closure) (args : List Value) (keywords : Bindings) : Prop where
  once : ∀ e ∈ keywords, ∀ p, c.named? e.1 = some p → p ∉ c.places.take args.length
  known : c.parameters.restKeywords.isSome = true ∨ ∀ e ∈ keywords, (c.named? e.1).isSome = true
  room : args.length ≤ c.places.length ∨ c.parameters.rest.isSome = true
  full : ∀ p ∈ c.single, (c.given? args keywords p).isSome = true

/-- What an accepted call binds. -/
def callOf (c : Closure) (args : List Value) (keywords : Bindings) : Call where
  bound := c.single.filterMap fun p => (c.given? args keywords p).map (p, ·)
  rest := args.drop c.places.length
  spare := c.unplaced keywords

theorem map_fst_zip_take (names : List String) (args : List Value) :
    (names.zip args).map (·.1) = names.take args.length := by
  induction names generalizing args with
  | nil => rw [List.zip_nil_left, List.take_nil, List.map_nil]
  | cons q names ih =>
    cases args with
    | nil => rfl
    | cons v args => exact congrArg (q :: ·) (ih args)

theorem get?_zip_eq_none {names : List String} {args : List Value} {p : String} :
    BindingsOf.get? (names.zip args) p = none ↔ p ∉ names.take args.length := by
  rw [BindingsOf.get?_eq_none]
  unfold BindingsOf.keys
  rw [map_fst_zip_take]

theorem keywordOnly_not_place (hnames : c.parameters.names.Nodup) {p : String}
    (hp : p ∈ c.parameters.keywordOnly.map (·.1)) : p ∉ c.places := fun hplace =>
  (List.nodup_append.mp (List.nodup_append.mp (List.nodup_append.mp hnames).1).1).2.2
    p hplace p hp rfl

theorem given?_eq (hnames : c.parameters.names.Nodup) (args : List Value) (keywords : Bindings)
    {p : String} (hp : p ∈ c.single) :
    c.given? args keywords p =
      ((BindingsOf.get? (c.places.zip args ++ c.placed keywords) p).or
        (if p ∈ c.places then c.placeDefaults.get? p else none)).or
          (if p ∈ c.parameters.keywordOnly.map (·.1) then BindingsOf.get? c.keywordDefaults p
            else none) := by
  unfold given? default?
  by_cases hplace : p ∈ c.places
  · have hkeyword : p ∉ c.parameters.keywordOnly.map (·.1) := fun h =>
      keywordOnly_not_place hnames h hplace
    rw [if_pos hplace, if_pos hplace, if_neg hkeyword, Option.or_none]
  · have hkeyword := (List.mem_append.mp hp).resolve_left hplace
    rw [if_neg hplace, if_neg hplace, if_pos hkeyword, Option.or_none]

/-- Where every parameter has a value or a default, filling up binds them as the call says. -/
theorem fill_ok_iff (hnames : c.parameters.names.Nodup) (args : List Value) (keywords : Bindings)
    {call : Call} :
    (do
      let bound ← c.fillDefaults "positional" c.places c.placeDefaults
        (c.places.zip args ++ c.placed keywords)
      let bound ← c.fillDefaults "keyword-only" (c.parameters.keywordOnly.map (·.1))
        c.keywordDefaults bound
      return ⟨c.inOrder bound, args.drop c.places.length, c.unplaced keywords⟩ :
        Except Fault Call) = .ok call ↔
      (∀ p ∈ c.single, (c.given? args keywords p).isSome = true) ∧
        call = c.callOf args keywords := by
  have hgiven {p : String} (hp : p ∈ c.single) := given?_eq hnames args keywords hp
  generalize hstart : c.places.zip args ++ c.placed keywords = start at hgiven
  generalize hnamed : c.parameters.keywordOnly.map (·.1) = names at hgiven ⊢
  let placed := filledUp c.places c.placeDefaults start
  let filled := filledUp names c.keywordDefaults placed
  have hget {p : String} (hp : p ∈ c.single) : filled.get? p = c.given? args keywords p := by
    rw [hgiven hp, get?_filledUp, get?_filledUp]
  have hbound : c.inOrder filled = (c.callOf args keywords).bound :=
    List.filterMap_congr fun p hp => by rw [hget hp]
  have hplaces : (∀ p ∈ c.places,
      ((BindingsOf.get? start p).or (c.placeDefaults.get? p)).isSome = true) ↔
        ∀ p ∈ c.places, (c.given? args keywords p).isSome = true := by
    refine forall₂_congr fun p hp => ?_
    have hkeyword : p ∉ names := fun h => keywordOnly_not_place hnames (hnamed ▸ h) hp
    rw [hgiven (List.mem_append_left _ hp), if_pos hp, if_neg hkeyword, Option.or_none]
  have hkeywords : (∀ p ∈ names,
      ((placed.get? p).or (BindingsOf.get? c.keywordDefaults p)).isSome = true) ↔
        ∀ p ∈ names, (c.given? args keywords p).isSome = true := by
    refine forall₂_congr fun p hp => ?_
    rw [hgiven (List.mem_append_right _ (hnamed ▸ hp)), if_pos hp, get?_filledUp]
  have hall : (∀ p ∈ c.single, (c.given? args keywords p).isSome = true) ↔
      (∀ p ∈ c.places, (c.given? args keywords p).isSome = true) ∧
        ∀ p ∈ names, (c.given? args keywords p).isSome = true :=
    hnamed ▸ List.forall_mem_append
  rw [hall, ← hplaces, ← hkeywords]
  constructor
  · intro h
    obtain ⟨b, hb, h⟩ := except_bind_ok h
    obtain ⟨b', hb', h⟩ := except_bind_ok h
    obtain ⟨h₁, rfl⟩ := fillDefaults_ok_iff.mp hb
    obtain ⟨h₂, rfl⟩ := fillDefaults_ok_iff.mp hb'
    exact ⟨⟨h₁, h₂⟩, (Except.ok.inj h).symm.trans (by rw [hbound]; rfl)⟩
  · rintro ⟨⟨h₁, h₂⟩, rfl⟩
    rw [fillDefaults_ok_iff.mpr ⟨h₁, rfl⟩]
    change (c.fillDefaults _ names c.keywordDefaults placed >>= _) = _
    rw [fillDefaults_ok_iff.mpr ⟨h₂, rfl⟩]
    change Except.ok _ = _
    rw [hbound]
    rfl

/-- The arguments of a call are bound exactly where the function accepts it. -/
theorem bind_ok_iff (hnames : c.parameters.names.Nodup) {args : List Value} {keywords : Bindings}
    (hkeys : keywords.keys.Nodup) {call : Call} :
    c.bind args keywords = .ok call ↔ c.Accepts args keywords ∧ call = c.callOf args keywords := by
  have htaken {taken : Bindings × Bindings} :
      keywords.foldlM (c.takeKeyword keywords) (c.places.zip args, []) = .ok taken ↔ _ :=
    takeKeywords_ok_iff hkeys fun _ => rfl
  have hroom : (args.length > c.places.length && c.parameters.rest.isNone) = true ↔
      ¬(args.length ≤ c.places.length ∨ c.parameters.rest.isSome = true) := by
    rw [Bool.and_eq_true, decide_eq_true_iff, not_or, Nat.not_le, Bool.not_eq_true,
      Option.isSome_eq_false_iff]
  have hfill := @fill_ok_iff c hnames args keywords call
  constructor
  · intro h
    obtain ⟨taken, htake, h⟩ := except_bind_ok h
    obtain ⟨honce, hknown, rfl⟩ := htaken.mp htake
    dsimp only at h
    split at h
    · cases h
    · rename_i hfits
      obtain ⟨hfull, hcall⟩ := hfill.mp h
      exact ⟨⟨fun e he p hp => get?_zip_eq_none.mp (honce e he p hp), hknown,
        Decidable.not_not.mp fun h => hfits (hroom.mpr h), hfull⟩, hcall⟩
  · rintro ⟨⟨honce, hknown, hfits, hfull⟩, rfl⟩
    unfold bind
    dsimp only
    rw [htaken.mpr ⟨fun e he p hp => get?_zip_eq_none.mpr (honce e he p hp), hknown, rfl⟩]
    change (if _ then _ else _) = _
    rw [if_neg fun h => hroom.mp h hfits]
    exact hfill.mpr ⟨hfull, rfl⟩

def FailsByType {α : Type} (e : Except Fault α) : Prop := ∀ f, e = .error f → ∃ m, f = .type m

theorem FailsByType.error {α : Type} (m : String) :
    FailsByType (.error (c.fault m) : Except Fault α) := by
  rintro f h
  cases h
  exact ⟨_, rfl⟩

theorem FailsByType.ok {α : Type} (a : α) : FailsByType (.ok a) := nofun

theorem FailsByType.bind {α β : Type} {e : Except Fault α} {k : α → Except Fault β}
    (he : FailsByType e) (hk : ∀ a, FailsByType (k a)) : FailsByType (e >>= k) := by
  cases e with
  | ok a => exact hk a
  | error f =>
    rintro f' h
    cases h
    exact he f rfl

theorem misplaced_byType (keywords : Bindings) (key : String) :
    ∃ m, c.misplaced keywords key = c.fault m := by
  unfold misplaced
  dsimp only
  split <;> exact ⟨_, rfl⟩

theorem takeKeyword_failsByType (keywords : Bindings) (taken : Bindings × Bindings)
    (e : String × Value) : FailsByType (c.takeKeyword keywords taken e) := by
  refine .bind ?_ fun taken => ?_
  · unfold bindKeyword
    split
    · split
      · exact .error _
      · exact .ok _
    · exact .ok _
  · split
    · obtain ⟨m, hm⟩ := misplaced_byType (c := c) keywords e.1
      rw [hm]
      exact .error m
    · exact .ok _

theorem fillDefaults_failsByType (kind : String) (names : List String)
    (defaults bound : Bindings) : FailsByType (c.fillDefaults kind names defaults bound) := by
  unfold fillDefaults
  dsimp only
  split
  · exact .ok _
  · exact .error _

theorem bind_failsByType (args : List Value) (keywords : Bindings) :
    FailsByType (c.bind args keywords) := by
  refine .bind ?_ fun taken => ?_
  · generalize (c.places.zip args, ([] : Bindings)) = taken
    suffices ∀ given : Bindings, FailsByType (given.foldlM (c.takeKeyword keywords) taken) from
      this keywords
    intro given
    induction given generalizing taken with
    | nil => exact .ok _
    | cons e given ih => exact .bind (takeKeyword_failsByType _ _ _) ih
  · dsimp only
    split
    · exact .error _
    · exact .bind (fillDefaults_failsByType _ _ _ _) fun _ =>
        .bind (fillDefaults_failsByType _ _ _ _) fun _ => .ok _

def EndAlike {α β : Type} (r : α → β → Prop) (e : Except Fault α) (e' : Except Fault β) : Prop :=
  (∃ f, e = .error f ∧ e' = .error f) ∨ ∃ a b, e = .ok a ∧ e' = .ok b ∧ r a b

theorem EndAlike.bind_eq {α β γ : Type} {r : α → β → Prop} {e : Except Fault α}
    {e' : Except Fault β} {k : α → Except Fault γ} {k' : β → Except Fault γ}
    (he : EndAlike r e e') (hk : ∀ a b, r a b → k a = k' b) : e >>= k = e' >>= k' := by
  rcases he with ⟨f, rfl, rfl⟩ | ⟨a, b, rfl, rfl, hr⟩
  · rfl
  · exact hk a b hr

theorem fillDefaults_alike {kind : String} {names : List String} {defaults bound bound' : Bindings}
    (h : ∀ p, bound'.get? p = bound.get? p) :
    EndAlike (fun b b' => ∀ p, BindingsOf.get? b' p = BindingsOf.get? b p)
      (c.fillDefaults kind names defaults bound) (c.fillDefaults kind names defaults bound') := by
  unfold fillDefaults
  simp only [h]
  split
  · refine .inr ⟨_, _, rfl, rfl, fun p => ?_⟩
    rw [BindingsOf.get?_append, BindingsOf.get?_append, h]
  · exact .inl ⟨_, rfl, rfl⟩

/-- The arguments given by name without those for `moved`. -/
def unmoved (moved keywords : Bindings) : Bindings :=
  keywords.filter fun e => e.1 ∉ moved.keys.map label

theorem get?_snoc {b : Bindings} {p q : String} {v : Value} :
    BindingsOf.get? (b ++ [(p, v)]) q = (b.get? q).or (if q = p then some v else none) := by
  rw [BindingsOf.get?_append, BindingsOf.get?_cons]
  rfl

/-- Arguments given under labels, taken one after another, leave what they leave that were bound at
their places before. -/
theorem takeKeywords_moved {keywords keywords' moved given : Bindings}
    (hmisplaced : ∀ key, c.misplaced keywords' key = c.misplaced keywords key)
    (hgiven : given.keys.Nodup) {bound bound' spare : Bindings}
    (hspare : c.parameters.restKeywords = none → spare = [])
    (hbound : ∀ p, bound'.get? p = (bound.get? p).or (moved.get? p))
    (hmoved : ∀ e ∈ given, ∀ p w, label p = e.1 → moved.get? p = some w →
      p ∈ c.nameable ∧ e.2 = w ∧ bound.get? p = none) :
    EndAlike (fun taken taken' => taken'.2 = taken.2 ∧
        ∀ p, BindingsOf.get? taken'.1 p = (BindingsOf.get? taken.1 p).or (moved.get? p))
      (given.foldlM (c.takeKeyword keywords) (bound, spare))
      ((unmoved moved given).foldlM (c.takeKeyword keywords') (bound', spare)) := by
  induction given generalizing bound bound' spare with
  | nil => exact .inr ⟨_, _, rfl, rfl, rfl, hbound⟩
  | cons e given ih =>
    obtain ⟨hfresh, hgiven⟩ := List.nodup_cons.mp hgiven
    obtain ⟨hhere, hlater⟩ := List.forall_mem_cons.mp hmoved
    -- a later argument is for another parameter
    have hother {e' : String × Value} (he' : e' ∈ given) {p q : String} (hp : label p = e.1)
        (hq : label q = e'.1) : q ≠ p := by
      rintro rfl
      exact hfresh (List.mem_map.mpr ⟨e', he', hq.symm.trans hp⟩)
    have hkeep {p : String} (hp : label p = e.1) : ∀ e' ∈ given, ∀ q w, label q = e'.1 →
        moved.get? q = some w → q ∈ c.nameable ∧ e'.2 = w ∧
          BindingsOf.get? (bound ++ [(p, e.2)]) q = none := by
      intro e' he' q w hq hw
      obtain ⟨hname, hv, hfree⟩ := hlater e' he' q w hq hw
      refine ⟨hname, hv, ?_⟩
      rw [get?_snoc, hfree, if_neg (hother he' hp hq)]
      rfl
    rw [List.foldlM_cons, takeKeyword_eq hspare]
    by_cases hlabel : e.1 ∈ moved.keys.map label
    · have hskip : unmoved moved (e :: given) = unmoved moved given := by
        unfold unmoved
        rw [List.filter_cons_of_neg (by simpa using hlabel)]
      obtain ⟨p, hp, hlabel⟩ := List.mem_map.mp hlabel
      obtain ⟨w, hw⟩ : ∃ w, moved.get? p = some w := by
        rw [← Option.isSome_iff_exists, ← Option.not_isNone, Bool.not_eq_true',
          Option.isNone_eq_false_iff, ← Option.ne_none_iff_isSome, Ne, BindingsOf.get?_eq_none]
        exact not_not_intro hp
      obtain ⟨hname, hv, hfree⟩ := hhere p w hlabel hw
      rw [hskip, named?_eq_some.mpr ⟨hname, hlabel⟩]
      dsimp only
      rw [hfree, if_neg (by simp)]
      refine ih hgiven hspare (fun q => ?_) (hkeep hlabel)
      rw [hbound, get?_snoc]
      by_cases hq : q = p
      · rw [hq, hfree, hw, if_pos rfl, hv]
        rfl
      · rw [if_neg hq, Option.or_none]
    · have hstay : unmoved moved (e :: given) = e :: unmoved moved given := by
        unfold unmoved
        rw [List.filter_cons_of_pos (by simpa using hlabel)]
      rw [hstay, List.foldlM_cons, takeKeyword_eq hspare]
      cases hnamed : c.named? e.1 with
      | none =>
        dsimp only
        rw [hmisplaced]
        cases hrest : c.parameters.restKeywords with
        | none => exact .inl ⟨_, rfl, rfl⟩
        | some name => exact ih hgiven (by rw [hrest]; nofun) hbound hlater
      | some p =>
        have hp := (named?_eq_some.mp hnamed).2
        have hmiss : moved.get? p = none :=
          BindingsOf.get?_eq_none.mpr fun h => hlabel (List.mem_map.mpr ⟨p, h, hp⟩)
        have hsame : bound'.get? p = bound.get? p := by rw [hbound, hmiss, Option.or_none]
        dsimp only
        rw [hsame]
        split
        · exact .inl ⟨_, rfl, rfl⟩
        · refine ih hgiven hspare (fun q => ?_) (hkeep hp)
          rw [get?_snoc, get?_snoc, hbound]
          by_cases hq : q = p
          · rw [hq, hmiss, Option.or_none, Option.or_none]
          · rw [if_neg hq, Option.or_none, Option.or_none]

theorem get?_unmoved {moved keywords : Bindings} {key : String}
    (hkey : key ∉ moved.keys.map label) :
    (unmoved moved keywords).get? key = keywords.get? key := by
  unfold unmoved
  induction keywords with
  | nil => rfl
  | cons e keywords ih =>
    rw [BindingsOf.get?_cons]
    by_cases he : e.1 ∈ moved.keys.map label
    · rw [List.filter_cons_of_neg (by simpa using he), ih, if_neg]
      exact fun h => hkey (h ▸ he)
    · rw [List.filter_cons_of_pos (by simpa using he), BindingsOf.get?_cons, ih]

/-- Arguments with more of them behind are at the same places, and these at the next ones. -/
theorem zip_moved {names : List String} {args : List Value} {moved : Bindings}
    (hmoved : moved.keys <+: names.drop args.length) (hargs : args.length ≤ names.length) :
    names.zip (args ++ moved.map (·.2)) = names.zip args ++ moved := by
  obtain ⟨others, hothers⟩ := hmoved
  have hsplit : names = names.take args.length ++ (moved.keys ++ others) := by
    rw [hothers, List.take_append_drop]
  have hlength : (names.take args.length).length = args.length := by
    rw [List.length_take, Nat.min_eq_left hargs]
  have hpairs : moved.keys.zip (moved.map (·.2)) = moved := by
    unfold BindingsOf.keys
    rw [List.zip_map', List.map_id'']
    exact fun _ => rfl
  generalize names.take args.length = front at hsplit hlength
  subst hsplit
  have hnone : args = args ++ [] := (List.append_nil args).symm
  have hmore : moved.map (·.2) = moved.map (·.2) ++ [] := (List.append_nil _).symm
  rw [List.zip_append hlength, hmore, List.zip_append (by simp [BindingsOf.keys]), hpairs,
    List.zip_nil_right, List.append_nil]
  conv_rhs => rw [hnone, List.zip_append hlength, List.zip_nil_right, List.append_nil]

/-- The parameters of the next places can be given by name, if those that cannot have arguments. -/
theorem next_places (hnames : c.parameters.names.Nodup) {args : List Value}
    (hargs : c.parameters.positionalOnly.length ≤ args.length) {p : String}
    (hp : p ∈ c.places.drop args.length) :
    p ∈ c.nameable ∧ p ∉ c.places.take args.length ∧ p ∉ c.parameters.positionalOnly := by
  have hplaces : c.places.Nodup :=
    (List.nodup_append.mp (List.nodup_append.mp (List.nodup_append.mp hnames).1).1).1
  have hapart : p ∉ c.places.take args.length := fun h =>
    (List.nodup_append.mp ((List.take_append_drop args.length c.places).symm ▸ hplaces)).2.2
      p h p hp rfl
  have honly : p ∉ c.parameters.positionalOnly := fun h => by
    refine hapart ?_
    unfold places
    rw [List.take_append, List.take_of_length_le hargs]
    exact List.mem_append_left _ h
  unfold places at hp
  have hpositional := (List.mem_append.mp (List.mem_of_mem_drop hp)).resolve_left honly
  exact ⟨List.mem_append_left _ hpositional, hapart, honly⟩

/-- A call with the arguments of the next places given under the labels of their parameters binds
what the call with these arguments at their places binds, or fails as it does. -/
theorem bind_moved (hnames : c.parameters.names.Nodup) {args : List Value} {keywords : Bindings}
    (hkeys : keywords.keys.Nodup) {moved : Bindings}
    (hargs : c.parameters.positionalOnly.length ≤ args.length)
    (hplaces : moved.keys <+: c.places.drop args.length)
    (hgiven : ∀ e ∈ moved, keywords.get? (label e.1) = some e.2) :
    c.bind args keywords = c.bind (args ++ moved.map (·.2)) (unmoved moved keywords) := by
  by_cases hnone : moved = []
  · have hall : unmoved [] keywords = keywords := List.filter_eq_self.mpr fun _ _ => rfl
    rw [hnone, hall, List.map_nil, List.append_nil]
  have hroom : args.length + moved.length ≤ c.places.length := by
    have hlength := hplaces.length_le
    have hpos := List.length_pos_iff.mpr hnone
    unfold BindingsOf.keys at hlength
    rw [List.length_map, List.length_drop] at hlength
    omega
  have hnext {p : String} (hp : p ∈ moved.keys) := next_places hnames hargs (hplaces.subset hp)
  have hmem {p : String} {w : Value} (hw : moved.get? p = some w) :
      p ∈ moved.keys ∧ keywords.get? (label p) = some w := by
    have he := BindingsOf.mem_of_get? hw
    exact ⟨List.mem_map.mpr ⟨_, he, rfl⟩, hgiven _ he⟩
  have hmisplaced (key : String) :
      c.misplaced (unmoved moved keywords) key = c.misplaced keywords key := by
    have hhidden : (c.parameters.positionalOnly.filter fun p =>
        ((unmoved moved keywords).get? (label p)).isSome) =
          c.parameters.positionalOnly.filter fun p => (keywords.get? (label p)).isSome := by
      refine List.filter_congr fun p hp => ?_
      rw [get?_unmoved]
      intro h
      obtain ⟨q, hq, hlabel⟩ := List.mem_map.mp h
      exact (hnext hq).2.2 (label_injective hlabel ▸ hp)
    unfold misplaced
    rw [hhidden]
  have hbound (p : String) : BindingsOf.get? (c.places.zip (args ++ moved.map (·.2))) p =
      (BindingsOf.get? (c.places.zip args) p).or (moved.get? p) := by
    rw [zip_moved hplaces (by omega), BindingsOf.get?_append]
  have hfree : ∀ e ∈ keywords, ∀ p w, label p = e.1 → moved.get? p = some w →
      p ∈ c.nameable ∧ e.2 = w ∧ BindingsOf.get? (c.places.zip args) p = none := by
    intro e he p w hp hw
    obtain ⟨hkey, hlabel⟩ := hmem hw
    have hv := BindingsOf.get?_of_mem hkeys he
    exact ⟨(hnext hkey).1, Option.some.inj (hv.symm.trans (hp ▸ hlabel)),
      get?_zip_eq_none.mpr (hnext hkey).2.1⟩
  have htaken := takeKeywords_moved hmisplaced hkeys (fun _ => rfl) hbound hfree
  unfold bind
  dsimp only
  rcases htaken with ⟨f, h, h'⟩ | ⟨taken, taken', h, h', hspare, hget⟩
  · rw [h, h']
    rfl
  · obtain ⟨-, -, rfl⟩ := (takeKeywords_ok_iff hkeys fun _ => rfl).mp h
    -- what is at its place here was bound under its label there
    have halike (p : String) : BindingsOf.get? taken'.1 p =
        BindingsOf.get? (c.places.zip args ++ c.placed keywords) p := by
      rw [hget]
      cases hp : BindingsOf.get? (c.places.zip args ++ c.placed keywords) p with
      | some v => rfl
      | none =>
        cases hw : moved.get? p with
        | none => rfl
        | some w =>
          obtain ⟨hkey, hlabel⟩ := hmem hw
          have hplaced : (p, w) ∈ c.placed keywords := List.mem_filterMap.mpr
            ⟨(label p, w), BindingsOf.mem_of_get? hlabel, by
              rw [named?_label (hnext hkey).1]; rfl⟩
          exact absurd (List.mem_map.mpr ⟨(p, w), List.mem_append_right _ hplaced, rfl⟩)
            (BindingsOf.get?_eq_none.mp hp)
    have hfew : args.length ≤ c.places.length := by omega
    have hmore : (args ++ moved.map (·.2)).length ≤ c.places.length := by
      rwa [List.length_append, List.length_map]
    have hnot {vs : List Value} (hvs : vs.length ≤ c.places.length) :
        ¬(vs.length > c.places.length && c.parameters.rest.isNone) = true := by
      rw [Bool.and_eq_true, decide_eq_true_iff]
      exact fun h => Nat.not_lt.mpr hvs h.1
    rw [h, h']
    change (if _ then _ else _) = (if _ then _ else _)
    rw [if_neg (hnot hfew), if_neg (hnot hmore)]
    refine EndAlike.bind_eq (fillDefaults_alike halike) fun b b' hb => ?_
    refine EndAlike.bind_eq (fillDefaults_alike hb) fun b b' hb => congrArg Except.ok ?_
    have horder : c.inOrder b' = c.inOrder b := by
      unfold inOrder
      simp only [hb]
    rw [horder, hspare, List.drop_of_length_le hfew, List.drop_of_length_le hmore]

end Closure

/-- A function knows its parameters by their labels. The arguments of the next places can be given
under the labels of their parameters instead, and the call runs on as it would. What a parameter is
in a call is the argument at its place, or the one under its label, or its default; a call that
leaves a parameter without a value, gives it two, or has an argument under a name that is no label
and is not collected, fails for its types. -/
theorem calls_bind_labels (ev : Evaluator) {h : Heap} {r : Ref} {c : Closure}
    (hc : h.closure? r = some c) (hnames : Expr.firstRepeated c.parameters.names = none)
    {args : List Value} {keywords : Bindings} (hkeys : keywords.keys.Nodup) (calls : Nat) :
    (∀ moved : Bindings, c.parameters.positionalOnly.length ≤ args.length →
      moved.keys <+: c.places.drop args.length →
      (∀ e ∈ moved, keywords.get? (Closure.label e.1) = some e.2) →
      (ev.callValue (.function r) args keywords).run calls h =
        (ev.callValue (.function r) (args ++ moved.map (·.2))
          (Closure.unmoved moved keywords)).run calls h) ∧
      (c.Accepts args keywords → (ev.callValue (.function r) args keywords).run calls h =
        (do
          let frame ← Eval.newFrame (← c.frameOf (c.callOf args keywords))
          Eval.nested 1 (ev.eval (c.bodyScope frame) c.body) : Eval Value).run calls h) ∧
      (¬c.Accepts args keywords → ∃ message,
        (ev.callValue (.function r) args keywords).run calls h =
          .error (.fault (.type message)) h) := by
  have hnodup := Expr.nodup_of_firstRepeated hnames
  have hcall (args : List Value) (keywords : Bindings) :
      (ev.callValue (.function r) args keywords).run calls h =
        (c.call ev args keywords).run calls h := by
    have hget (k : Heap → Eval Value) : (get >>= k : Eval Value).run calls h = (k h).run calls h :=
      rfl
    unfold Evaluator.callValue
    dsimp only
    rw [hget, hc]
  refine ⟨fun moved hargs hplaces hgiven => ?_, fun haccepts => ?_, fun hrefuses => ?_⟩
  · rw [hcall, hcall]
    unfold Closure.call
    rw [Closure.bind_moved hnodup hkeys hargs hplaces hgiven]
  · rw [hcall]
    unfold Closure.call
    rw [(Closure.bind_ok_iff hnodup hkeys).mpr ⟨haccepts, rfl⟩]
    rfl
  · cases hbind : c.bind args keywords with
    | ok call => exact absurd ((Closure.bind_ok_iff hnodup hkeys).mp hbind).1 hrefuses
    | error f =>
      obtain ⟨message, rfl⟩ := Closure.bind_failsByType args keywords f hbind
      refine ⟨message, ?_⟩
      rw [hcall]
      unfold Closure.call
      rw [hbind]
      rfl

/-- A function of a text with a mark behind it, some times. -/
def marking : Closure where
  parameters := ⟨["text"], ["mark"], none, [("times", none)], none, []⟩
  body := .binary .multiply (.binary .add (.name "text") (.name "mark")) (.name "times")
  scope := ⟨0, false, 0, [], [], ""⟩
  defaults := []
  keywordDefaults := []
  title := "<lambda>"

def markingHeap : Heap := ⟨#[.function marking], #[], #[]⟩

/-- Its mark can be given under its label, and the parameter that has no place must be. -/
theorem marking_binds_labels :
    markingHeap.closure? 0 = some marking ∧
      Expr.firstRepeated marking.parameters.names = none ∧
      (BindingsOf.keys [("_l_times", Value.int 2), ("_l_mark", .str "!")]).Nodup ∧
      marking.Accepts [.str "hi"] [("_l_times", .int 2), ("_l_mark", .str "!")] ∧
      ¬marking.Accepts [.str "hi"] [("times", .int 2), ("mark", .str "!")] ∧
      ((Evaluator.run 9).callValue (.function 0) [.str "hi"]
        [("_l_times", .int 2), ("_l_mark", .str "!")]).run 0 markingHeap =
        ((Evaluator.run 9).callValue (.function 0) [.str "hi", .str "!"]
          [("_l_times", .int 2)]).run 0 markingHeap := by
  have hnames : Expr.firstRepeated marking.parameters.names = none := by decide
  have hkeys : (BindingsOf.keys [("_l_times", Value.int 2), ("_l_mark", .str "!")]).Nodup := by
    decide
  have hfound : markingHeap.closure? 0 = some marking := rfl
  have hok : (marking.bind [.str "hi"] [("_l_times", .int 2), ("_l_mark", .str "!")]).isOk := by
    decide
  have haccepts : marking.Accepts [.str "hi"] [("_l_times", .int 2), ("_l_mark", .str "!")] := by
    cases hbind : marking.bind [.str "hi"] [("_l_times", .int 2), ("_l_mark", .str "!")] with
    | ok call =>
      exact ((Closure.bind_ok_iff (Expr.nodup_of_firstRepeated hnames) hkeys).mp hbind).1
    | error f =>
      rw [hbind] at hok
      cases hok
  have hrefuses : ¬marking.Accepts [.str "hi"] [("times", .int 2), ("mark", .str "!")] := by
    rintro ⟨-, hknown, -⟩
    rcases hknown with hrest | hknown
    · cases hrest
    · have hnot := hknown ("times", .int 2) List.mem_cons_self
      revert hnot
      decide
  refine ⟨hfound, hnames, hkeys, haccepts, hrefuses,
    (calls_bind_labels (Evaluator.run 9) hfound hnames hkeys 0).1 [("mark", .str "!")] ?_ ?_ ?_⟩
  · decide
  · exact ⟨[], by decide⟩
  · rintro e he
    rw [List.mem_singleton.mp he]
    rfl

/-- One page gives an argument under the name its function was written with, the other at its
place. -/
def lambdaPages : Environment := .ofTable
  [("named", "\x7b\x7b (lambda x: x)(x=1) \x7d\x7d"),
    ("placed", "\x7b\x7b (lambda x: x)(1) \x7d\x7d")]

/-- An argument under the name that a function was written with is refused, while the same argument
at its place is not. -/
theorem written_name_refused :
    ((lambdaPages.render "named" .none []).stop? .fresh).bind Stop.cause? =
        some (.type "render.<locals>.<lambda>() got an unexpected keyword argument 'x'") ∧
      ((lambdaPages.render "placed" .none []).value? .fresh).map Output.text = some "1" := by
  decide +kernel

end Stencil
