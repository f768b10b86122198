import Stencil.Proofs.Mentions

/-!
# Forbidden constructs

An expression is harmless if no assignment, no `await`, no `yield` and no attribute with a hidden
name stands inside of it, at any depth: in a comprehension, a function, an argument or a string
literal with fields. The check of an expression finds a construct if and only if there is one.
-/

namespace Stencil

def Clause.children (c : Clause Expr) : List Expr := c.target :: c.source :: c.conditions

namespace Expr

def children : Expr → List Expr
  | .lambda parameters body => body :: parts (.lambda parameters body)
  | .collect _ element clauses => element :: clauses.flatMap Clause.children
  | .collectDict key value clauses => key :: value :: clauses.flatMap Clause.children
  | e => e.parts

/-- An expression stands inside another one, at any depth. -/
inductive Contains : Expr → Expr → Prop
  | self {e : Expr} : Contains e e
  | child {e c f : Expr} (hc : c ∈ e.children) (h : Contains c f) : Contains e f

inductive IsForbidden : Expr → Prop
  | hiddenAttribute {value : Expr} {name : String} (h : ['_', '_'] <+: name.toList) :
      IsForbidden (.attribute value name)
  | assignment {target : String} {value : Expr} : IsForbidden (.assignment target value)
  | await {value : Expr} : IsForbidden (.await value)
  | yielded {value : Option Expr} : IsForbidden (.yielded value)
  | yieldedFrom {value : Expr} : IsForbidden (.yieldedFrom value)

def IsHarmless (e : Expr) : Prop := ∀ f, e.Contains f → ¬ f.IsForbidden

theorem within_of_mem_clause {c : Clause Expr} {p : Expr} (h : p ∈ c.children) :
    (ofClause c).Within p.outline := by
  apply Outline.Within.of_mem
  rw [ofClause_parts]
  have hmem : p.outline ∈ ofList (c.target :: c.source :: c.conditions) := mem_ofList h
  exact hmem

/-- What an expression is made of is part of its outline. -/
theorem within_of_mem_children {e p : Expr} (h : p ∈ e.children) :
    e.outline.Within p.outline := by
  cases e with
  | lambda parameters body =>
    rcases List.mem_cons.mp h with rfl | h
    · exact .of_mem (List.mem_cons_of_mem _ List.mem_cons_self)
    · exact within_of_mem_parts h
  | collect kind element clauses =>
    rcases List.mem_cons.mp h with rfl | h
    · exact .of_mem List.mem_cons_self
    · obtain ⟨c, hc, hp⟩ := List.mem_flatMap.mp h
      have hclause := within_clause (e := .collect kind element clauses) rfl hc
      exact hclause.trans (within_of_mem_clause hp)
  | collectDict key value clauses =>
    rcases List.mem_cons.mp h with rfl | h
    · exact .of_mem List.mem_cons_self
    rcases List.mem_cons.mp h with rfl | h
    · exact .of_mem (List.mem_cons_of_mem _ List.mem_cons_self)
    · obtain ⟨c, hc, hp⟩ := List.mem_flatMap.mp h
      have hclause := within_clause (e := .collectDict key value clauses) rfl hc
      exact hclause.trans (within_of_mem_clause hp)
  | _ => exact within_of_mem_parts h

theorem Contains.within {e f : Expr} (h : e.Contains f) : e.outline.Within f.outline := by
  induction h with
  | self => exact .self
  | child hc _ ih => exact (within_of_mem_children hc).trans ih

theorem isForbidden_iff {e : Expr} : e.IsForbidden ↔ (forbidden? e.outline.construct).isSome := by
  cases e with
  | «attribute» value name =>
    change _ ↔ (if "__".isPrefixOf name then some (Forbidden.hiddenAttribute name)
      else none).isSome
    have hstarts : "__".isPrefixOf name = true ↔ ['_', '_'] <+: name.toList :=
      String.startsWith_string_iff
    constructor
    · rintro ⟨h⟩
      rw [if_pos (hstarts.mpr h)]
      rfl
    · intro h
      by_cases hname : "__".isPrefixOf name = true
      · exact .hiddenAttribute (hstarts.mp hname)
      · rw [if_neg hname] at h
        cases h
  | assignment target value => exact ⟨fun _ => rfl, fun _ => .assignment⟩
  | await value => exact ⟨fun _ => rfl, fun _ => .await⟩
  | yielded value => exact ⟨fun _ => rfl, fun _ => .yielded⟩
  | yieldedFrom value => exact ⟨fun _ => rfl, fun _ => .yieldedFrom⟩
  | _ => exact ⟨nofun, nofun⟩

/-- An outline of one of these expressions, or one that holds nothing forbidden but what they
hold. -/
inductive Outline.MadeOf (es : List Expr) : Outline → Prop
  | expr {e : Expr} (he : e ∈ es) : MadeOf es e.outline
  | wrap {construct : Construct} {parts : List Outline} (hc : forbidden? construct = none)
      (hparts : ∀ p ∈ parts, MadeOf es p) : MadeOf es (.node construct parts)

theorem madeOf_map {es es' : List Expr} (h : es' ⊆ es) : ∀ p ∈ es'.map outline, p.MadeOf es := by
  intro p hp
  obtain ⟨e, he, rfl⟩ := List.mem_map.mp hp
  exact .expr (h he)

theorem ofFragment_madeOf {f : Fragment Expr} {fs : List (Fragment Expr)} (hf : f ∈ fs) :
    (ofFragment f).MadeOf (interpolated fs).children := by
  cases f with
  | text s => exact .wrap rfl nofun
  | field value conversion format =>
    have hsubset : value :: format.toList ⊆ (interpolated fs).children := by
      intro e he
      exact List.mem_flatMap.mpr ⟨_, hf, he⟩
    apply Outline.MadeOf.wrap rfl
    rw [ofOption_eq, ← List.map_cons]
    exact madeOf_map hsubset

theorem ofClause_madeOf {c : Clause Expr} {es : List Expr} (h : c.children ⊆ es) :
    (ofClause c).MadeOf es := by
  obtain ⟨target, source, conditions, asynchronous⟩ := c
  apply Outline.MadeOf.wrap rfl
  rw [ofList_eq, ← List.map_cons, ← List.map_cons]
  exact madeOf_map h

theorem ofClauses_madeOf {clauses : List (Clause Expr)} {es : List Expr}
    (h : clauses.flatMap Clause.children ⊆ es) : ∀ p ∈ ofClauses clauses, p.MadeOf es := by
  intro p hp
  rw [ofClauses_eq] at hp
  obtain ⟨c, hc, rfl⟩ := List.mem_map.mp hp
  apply ofClause_madeOf
  intro e he
  exact h (List.mem_flatMap.mpr ⟨c, hc, he⟩)

/-- The parts of the outline of an expression are made of what the expression is made of. -/
theorem parts_madeOf (e : Expr) : ∀ p ∈ e.outline.parts, p.MadeOf e.children := by
  cases e with
  | literal value => nofun
  | name id => nofun
  | interpolated fragments =>
    intro p hp
    rw [outline, Outline.parts, ofFragments_eq] at hp
    obtain ⟨f, hf, rfl⟩ := List.mem_map.mp hp
    exact ofFragment_madeOf hf
  | display kind items =>
    rw [outline, Outline.parts, ofList_eq]
    exact madeOf_map (List.Subset.refl _)
  | dict entries =>
    rw [outline, Outline.parts, keysOf_eq, valuesOf_eq, ← List.map_append]
    apply madeOf_map
    intro e he
    rcases List.mem_append.mp he with he | he
    · obtain ⟨entry, hentry, he⟩ := List.mem_flatMap.mp he
      exact List.mem_flatMap.mpr ⟨entry, hentry, List.mem_append_left _ he⟩
    · obtain ⟨entry, hentry, rfl⟩ := List.mem_map.mp he
      exact List.mem_flatMap.mpr ⟨entry, hentry, List.mem_append_right _ List.mem_cons_self⟩
  | boolean any operands =>
    rw [outline, Outline.parts, ofList_eq]
    exact madeOf_map (List.Subset.refl _)
  | compare first rest =>
    rw [outline, Outline.parts, ofComparisons_eq, ← List.map_cons]
    exact madeOf_map (List.Subset.refl _)
  | slice start stop step =>
    rw [outline, Outline.parts, ofOption_eq, ofOption_eq, ofOption_eq, ← List.map_append,
      ← List.map_append]
    exact madeOf_map (List.Subset.refl _)
  | call function arguments keywords =>
    rw [outline, Outline.parts, ofList_eq, ofKeywords_eq]
    intro p hp
    rcases List.mem_cons.mp hp with rfl | hp
    · exact .expr List.mem_cons_self
    rcases List.mem_append.mp hp with hp | hp
    · apply madeOf_map _ p hp
      exact List.subset_cons_of_subset _ (List.subset_append_left _ _)
    · obtain ⟨e, he, rfl⟩ := List.mem_map.mp hp
      have hchild : e ∈ (call function arguments keywords).children :=
        List.mem_cons_of_mem _ (List.mem_append_right _ he)
      exact .wrap rfl (List.forall_mem_singleton.mpr (.expr hchild))
  | lambda parameters body =>
    intro p hp
    rcases List.mem_cons.mp hp with rfl | hp
    · obtain ⟨_, _, _, keywordOnly, _, defaults⟩ := parameters
      apply Outline.MadeOf.wrap rfl
      rw [ofKeywordOnly_eq, ofList_eq, ← List.map_append]
      apply madeOf_map
      intro e he
      exact List.mem_cons_of_mem _ (List.mem_append.mpr (List.mem_append.mp he).symm)
    · rw [List.mem_singleton.mp hp]
      exact .expr List.mem_cons_self
  | collect kind element clauses =>
    intro p hp
    rcases List.mem_cons.mp hp with rfl | hp
    · exact .expr List.mem_cons_self
    · exact ofClauses_madeOf (List.subset_cons_self _ _) p hp
  | collectDict key value clauses =>
    intro p hp
    rcases List.mem_cons.mp hp with rfl | hp
    · exact .expr List.mem_cons_self
    rcases List.mem_cons.mp hp with rfl | hp
    · exact .expr (List.mem_cons_of_mem _ List.mem_cons_self)
    · apply ofClauses_madeOf _ p hp
      exact List.subset_cons_of_subset _ (List.subset_cons_self _ _)
  | assignment target value =>
    intro p hp
    rcases List.mem_cons.mp hp with rfl | hp
    · exact .wrap rfl nofun
    · rw [List.mem_singleton.mp hp]
      exact .expr List.mem_cons_self
  | yielded value =>
    rw [outline, Outline.parts, ofOption_eq]
    exact madeOf_map (List.Subset.refl _)
  | starred e | unary _ e | «attribute» e _ | await e | yieldedFrom e =>
    exact madeOf_map (List.Subset.refl [e])
  | binary _ a b | subscript a b => exact madeOf_map (List.Subset.refl [a, b])
  | conditional test yes no => exact madeOf_map (List.Subset.refl [test, yes, no])

/-- What is forbidden in an outline is forbidden in what the outline is made of. -/
theorem Outline.MadeOf.forbidden {o p : Outline} (h : o.Within p)
    (hp : (forbidden? p.construct).isSome) {es : List Expr} (ho : o.MadeOf es) :
    ∃ e ∈ es, ∃ f, e.Contains f ∧ f.IsForbidden := by
  induction h generalizing es with
  | self =>
    cases ho with
    | expr he => exact ⟨_, he, _, .self, isForbidden_iff.mpr hp⟩
    | wrap hc hparts =>
      rw [construct, hc] at hp
      cases hp
  | part hq _ ih =>
    cases ho with
    | @expr e he =>
      obtain ⟨c, hc, f, hf, hforbidden⟩ := ih hp (parts_madeOf e _ hq)
      exact ⟨e, he, f, .child hc hf, hforbidden⟩
    | wrap hc hparts => exact ih hp (hparts _ hq)

theorem Outline.of_searchLevels {α : Type} {check : Construct → Option α} {fuel : Nat}
    {level : List Outline} (h : (searchLevels check fuel level).isSome) :
    ∃ o ∈ level, ∃ p, o.Within p ∧ (check p.construct).isSome := by
  induction fuel generalizing level with
  | zero => cases h
  | succ fuel ih =>
    unfold searchLevels at h
    cases hfound : level.findSome? fun o => check o.construct with
    | some a =>
      obtain ⟨o, ho, hcheck⟩ := List.exists_of_findSome?_eq_some hfound
      exact ⟨o, ho, o, .self, Option.isSome_iff_exists.mpr ⟨a, hcheck⟩⟩
    | none =>
      rw [hfound] at h
      simp only at h
      split at h
      · cases h
      · obtain ⟨q, hq, p, hp, hcheck⟩ := ih h
        obtain ⟨o, ho, hqo⟩ := List.mem_flatMap.mp hq
        exact ⟨o, ho, p, .part hqo hp, hcheck⟩

/-- The check finds a forbidden construct if and only if there is one. -/
theorem firstForbidden?_eq_none {e : Expr} : e.firstForbidden? = none ↔ e.IsHarmless := by
  constructor
  · intro h f hf hforbidden
    have hfound : e.firstForbidden?.isSome = true :=
      Outline.searchLevels_isSome (List.mem_singleton_self _) hf.within (Nat.lt_succ_self _)
        (isForbidden_iff.mp hforbidden)
    rw [h] at hfound
    cases hfound
  · intro h
    apply Option.not_isSome_iff_eq_none.mp
    intro hfound
    obtain ⟨o, ho, p, hp, hcheck⟩ := Outline.of_searchLevels hfound
    have hmade : o.MadeOf [e] := List.mem_singleton.mp ho ▸ .expr (List.mem_singleton_self e)
    obtain ⟨e', he', f, hf, hforbidden⟩ := hmade.forbidden hp hcheck
    exact h f (List.mem_singleton.mp he' ▸ hf) hforbidden

end Expr

end Stencil
