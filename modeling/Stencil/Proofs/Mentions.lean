import Stencil.Proofs.Twins

/-!
# Mentions

A name that occurs anywhere inside an expression is mentioned by it, and by all nodes around it.
So a loop that an occurrence of `loop` is inside of counts its passes, unless `loop` is one of its
own targets.
-/

namespace Stencil

namespace Expr

/-- An outline is part of another one, at any depth. -/
inductive Outline.Within : Outline → Outline → Prop
  | self {o : Outline} : Within o o
  | part {o p q : Outline} (hp : p ∈ o.parts) (h : Within p q) : Within o q

namespace Outline

theorem Within.trans {o p q : Outline} (h : o.Within p) (h' : p.Within q) : o.Within q := by
  induction h with
  | self => exact h'
  | part hp _ ih => exact .part hp (ih h')

theorem Within.of_mem {o p : Outline} (h : p ∈ o.parts) : o.Within p := .part h .self

theorem depth_le_depths {o : Outline} {os : List Outline} (h : o ∈ os) : o.depth ≤ depths os := by
  induction os with
  | nil => cases h
  | cons p os ih =>
    unfold depths
    rcases List.mem_cons.mp h with rfl | h
    · exact Nat.le_max_left _ _
    · exact Nat.le_trans (ih h) (Nat.le_max_right _ _)

theorem depth_lt_of_mem {o p : Outline} (h : p ∈ o.parts) : p.depth < o.depth := by
  obtain ⟨construct, parts⟩ := o
  exact Nat.lt_one_add_iff.mpr (depth_le_depths h)

theorem searchLevels_isSome {α : Type} {check : Construct → Option α} {fuel : Nat}
    {level : List Outline} {o p : Outline} (ho : o ∈ level) (hp : o.Within p)
    (hdepth : o.depth < fuel) (hcheck : (check p.construct).isSome = true) :
    (searchLevels check fuel level).isSome = true := by
  induction fuel generalizing level o with
  | zero => exact absurd hdepth (Nat.not_lt_zero _)
  | succ fuel ih =>
    unfold searchLevels
    cases hfound : level.findSome? fun o => check o.construct with
    | some a => rfl
    | none =>
      have hnone := List.findSome?_eq_none_iff.mp hfound
      have hempty : level.isEmpty = false := List.isEmpty_eq_false_iff_exists_mem.mpr ⟨o, ho⟩
      dsimp only
      rw [hempty]
      cases hp with
      | self =>
        rw [hnone _ ho] at hcheck
        cases hcheck
      | part hq hp =>
        refine ih (List.mem_flatMap.mpr ⟨o, ho, hq⟩) hp ?_
        exact Nat.lt_of_lt_of_le (depth_lt_of_mem hq) (Nat.le_of_lt_succ hdepth)

end Outline

theorem ofList_eq (es : List Expr) : ofList es = es.map outline := by
  induction es with
  | nil => rfl
  | cons e es ih => rw [ofList, ih, List.map_cons]

theorem ofOption_eq (o : Option Expr) : ofOption o = o.toList.map outline := by
  cases o <;> rfl

theorem ofFragments_eq (fs : List (Fragment Expr)) : ofFragments fs = fs.map ofFragment := by
  induction fs with
  | nil => rfl
  | cons f fs ih => rw [ofFragments, ih, List.map_cons]

theorem keysOf_eq (entries : List (Option Expr × Expr)) :
    keysOf entries = (entries.flatMap (·.1.toList)).map outline := by
  induction entries with
  | nil => rfl
  | cons entry entries ih => rw [keysOf, keyOf, ih, ofOption_eq, List.flatMap_cons, List.map_append]

theorem valuesOf_eq (entries : List (Option Expr × Expr)) :
    valuesOf entries = (entries.map (·.2)).map outline := by
  induction entries with
  | nil => rfl
  | cons entry entries ih => rw [valuesOf, valueOf, ih, List.map_cons, List.map_cons]

theorem ofComparisons_eq (rest : List (CompareOp × Expr)) :
    ofComparisons rest = (rest.map (·.2)).map outline := by
  induction rest with
  | nil => rfl
  | cons c rest ih => rw [ofComparisons, ofComparison, ih, List.map_cons, List.map_cons]

theorem ofKeywords_eq (keywords : List (Option String × Expr)) :
    ofKeywords keywords = (keywords.map (·.2)).map fun e => .node .plain [e.outline] := by
  induction keywords with
  | nil => rfl
  | cons k keywords ih => rw [ofKeywords, ofKeyword, ih, List.map_cons, List.map_cons]

theorem ofKeywordOnly_eq (ps : List (String × Option Expr)) :
    ofKeywordOnly ps = (ps.filterMap (·.2)).map outline := by
  induction ps with
  | nil => rfl
  | cons p ps ih =>
    obtain ⟨name, value⟩ := p
    rw [ofKeywordOnly, keywordDefault, ih, ofOption_eq]
    cases value <;> rfl

theorem ofClauses_eq (clauses : List (Clause Expr)) : ofClauses clauses = clauses.map ofClause := by
  induction clauses with
  | nil => rfl
  | cons c clauses ih => rw [ofClauses, ih, List.map_cons]

theorem mem_ofList {e : Expr} {es : List Expr} (h : e ∈ es) : e.outline ∈ ofList es :=
  ofList_eq es ▸ List.mem_map_of_mem h

theorem mem_ofOption {e : Expr} {o : Option Expr} (h : e ∈ o.toList) : e.outline ∈ ofOption o :=
  ofOption_eq o ▸ List.mem_map_of_mem h

theorem within_clause {e : Expr} {product : Product} {clauses : List (Clause Expr)}
    (he : e.comprehension? = some (product, clauses)) {c : Clause Expr} (h : c ∈ clauses) :
    e.outline.Within (ofClause c) := by
  cases e with
  | collect kind element clauses' =>
    cases he
    refine .of_mem (List.mem_cons_of_mem _ ?_)
    exact ofClauses_eq clauses ▸ List.mem_map_of_mem h
  | collectDict key value clauses' =>
    cases he
    refine .of_mem (List.mem_cons_of_mem _ (List.mem_cons_of_mem _ ?_))
    exact ofClauses_eq clauses ▸ List.mem_map_of_mem h
  | _ => cases he

theorem ofClause_parts (c : Clause Expr) :
    (ofClause c).parts = c.target.outline :: c.source.outline :: ofList c.conditions := by
  cases c
  rfl

theorem within_source (c : Clause Expr) : (ofClause c).Within c.source.outline :=
  .of_mem (ofClause_parts c ▸ List.mem_cons_of_mem _ List.mem_cons_self)

/-- What is evaluated on behalf of an expression is part of its outline. -/
theorem within_of_mem_parts {e p : Expr} (h : p ∈ e.parts) : e.outline.Within p.outline := by
  cases e with
  | literal _ => cases h
  | name _ => cases h
  | interpolated fragments =>
    obtain ⟨f, hf, hp⟩ := List.mem_flatMap.mp h
    have hmem : ofFragment f ∈ ofFragments fragments :=
      ofFragments_eq fragments ▸ List.mem_map_of_mem hf
    have hfragment : (interpolated fragments).outline.Within (ofFragment f) := .of_mem hmem
    refine hfragment.trans ?_
    cases f with
    | text _ => cases hp
    | field value conversion format =>
      rcases List.mem_cons.mp hp with rfl | hp
      · exact .of_mem List.mem_cons_self
      · exact .of_mem (List.mem_cons_of_mem _ (mem_ofOption hp))
  | display kind items => exact .of_mem (mem_ofList h)
  | dict entries =>
    obtain ⟨⟨key, value⟩, hentry, hp⟩ := List.mem_flatMap.mp h
    apply Outline.Within.of_mem
    apply List.mem_append.mpr
    rw [keysOf_eq, valuesOf_eq]
    rcases List.mem_append.mp hp with hp | hp
    · exact .inl (List.mem_map_of_mem (List.mem_flatMap.mpr ⟨_, hentry, hp⟩))
    · cases List.mem_singleton.mp hp
      exact .inr (List.mem_map_of_mem (List.mem_map_of_mem (f := Prod.snd) hentry))
  | boolean op operands => exact .of_mem (mem_ofList h)
  | compare first rest =>
    rcases List.mem_cons.mp h with rfl | h
    · exact .of_mem List.mem_cons_self
    · have hrest : p.outline ∈ ofComparisons rest := ofComparisons_eq rest ▸ List.mem_map_of_mem h
      exact .of_mem (List.mem_cons_of_mem _ hrest)
  | slice start stop step =>
    refine .of_mem (List.mem_append.mpr ?_)
    rcases List.mem_append.mp h with h | h
    · refine .inl (List.mem_append.mpr ?_)
      exact (List.mem_append.mp h).imp mem_ofOption mem_ofOption
    · exact .inr (mem_ofOption h)
  | call function arguments keywords =>
    rcases List.mem_cons.mp h with rfl | h
    · exact .of_mem List.mem_cons_self
    · rcases List.mem_append.mp h with h | h
      · exact .of_mem (List.mem_cons_of_mem _ (List.mem_append_left _ (mem_ofList h)))
      · have hkeyword : .node .plain [p.outline] ∈ ofKeywords keywords := by
          rw [ofKeywords_eq]
          exact List.mem_map_of_mem (f := fun e => Outline.node .plain [e.outline]) h
        refine .part (List.mem_cons_of_mem _ (List.mem_append_right _ hkeyword)) ?_
        exact .of_mem List.mem_cons_self
  | lambda parameters body =>
    obtain ⟨_, _, _, keywordOnly, _, defaults⟩ := parameters
    refine .part List.mem_cons_self (.of_mem (List.mem_append.mpr ?_))
    rcases List.mem_append.mp h with h | h
    · exact .inr (mem_ofList h)
    · exact .inl (ofKeywordOnly_eq keywordOnly ▸ List.mem_map_of_mem h)
  | collect kind element clauses =>
    obtain ⟨c, hc, rfl⟩ := List.mem_map.mp h
    exact (within_clause rfl (List.mem_of_mem_take hc)).trans (within_source c)
  | collectDict key value clauses =>
    obtain ⟨c, hc, rfl⟩ := List.mem_map.mp h
    exact (within_clause rfl (List.mem_of_mem_take hc)).trans (within_source c)
  | yielded value => exact .of_mem (mem_ofOption h)
  | starred e | unary _ e | «attribute» e _ | await e | yieldedFrom e =>
    cases List.mem_singleton.mp h
    exact .of_mem (List.mem_singleton_self _)
  | assignment _ e =>
    cases List.mem_singleton.mp h
    exact .of_mem (List.mem_cons_of_mem _ (List.mem_singleton_self _))
  | binary _ a b => exact .of_mem (mem_ofList (show p ∈ [a, b] from h))
  | subscript a b => exact .of_mem (mem_ofList (show p ∈ [a, b] from h))
  | conditional test yes no => exact .of_mem (mem_ofList (show p ∈ [test, yes, no] from h))

mutual

/-- What is evaluated when a target is given a value is part of its outline. -/
theorem within_of_mem_loads {p : Expr} : ∀ e : Expr, p ∈ e.loads → e.outline.Within p.outline
  | .starred e, h => by
    rw [loads] at h
    exact .part (List.mem_singleton_self _) (within_of_mem_loads e h)
  | .display kind es, h => by
    rw [loads] at h
    obtain ⟨e, he, hp⟩ := within_of_mem_loadsOfAll es h
    exact .part (mem_ofList he) hp
  | .subscript a b, h => by
    rw [loads] at h
    exact .of_mem (mem_ofList (show p ∈ [a, b] from h))
  | .attribute e _, h => by
    rw [loads] at h
    exact .of_mem (mem_ofList (show p ∈ [e] from h))
  | .literal _, h | .name _, h | .interpolated _, h | .dict _, h | .unary _ _, h
  | .binary _ _ _, h | .boolean _ _, h | .compare _ _, h | .conditional _ _ _, h
  | .slice _ _ _, h | .call _ _ _, h | .lambda _ _, h | .collect _ _ _, h
  | .collectDict _ _ _, h | .assignment _ _, h | .await _, h | .yielded _, h
  | .yieldedFrom _, h => by cases h

theorem within_of_mem_loadsOfAll {p : Expr} : ∀ es : List Expr, p ∈ loadsOfAll es →
    ∃ e ∈ es, e.outline.Within p.outline
  | [], h => by cases h
  | e :: es, h => by
    rw [loadsOfAll] at h
    rcases List.mem_append.mp h with h | h
    · exact ⟨e, List.mem_cons_self, within_of_mem_loads e h⟩
    · obtain ⟨e', he', hp⟩ := within_of_mem_loadsOfAll es h
      exact ⟨e', List.mem_cons_of_mem _ he', hp⟩

end

theorem within_of_clause_holds {e p : Expr} {product : Product} {clauses : List (Clause Expr)}
    (he : e.comprehension? = some (product, clauses)) {n : Nat}
    (h : Clause.Holds product clauses n p) : e.outline.Within p.outline := by
  cases h with
  | product hp =>
    cases e with
    | collect kind element clauses' =>
      cases he
      cases List.mem_singleton.mp hp
      exact .of_mem List.mem_cons_self
    | collectDict key value clauses' =>
      cases he
      rcases List.mem_cons.mp hp with rfl | hp
      · exact .of_mem List.mem_cons_self
      · cases List.mem_singleton.mp hp
        exact .of_mem (List.mem_cons_of_mem _ List.mem_cons_self)
    | _ => cases he
  | source hc => exact (within_clause he (List.mem_of_getElem? hc)).trans (within_source _)
  | condition hc hp =>
    refine (within_clause he (List.mem_of_getElem? hc)).trans (.of_mem ?_)
    rw [ofClause_parts]
    exact List.mem_cons_of_mem _ (List.mem_cons_of_mem _ (mem_ofList hp))
  | target hc hp =>
    refine (within_clause he (List.mem_of_getElem? hc)).trans ?_
    exact .part (ofClause_parts _ ▸ List.mem_cons_self) (within_of_mem_loads _ hp)

theorem Holds.within {context context' : List Shade} {e f : Expr}
    (h : Expr.Holds context e context' f) : e.outline.Within f.outline := by
  induction h with
  | self => exact .self
  | part hp _ ih => exact (within_of_mem_parts hp).trans ih
  | body _ ih => exact .part (List.mem_cons_of_mem _ (List.mem_singleton_self _)) ih
  | clause he hp _ ih => exact (within_of_clause_holds he hp).trans ih

theorem mentions_of_within {e : Expr} {id : String} (h : e.outline.Within (.node (.name id) [])) :
    e.mentions id = true := by
  unfold mentions Outline.first?
  refine Outline.searchLevels_isSome (List.mem_singleton_self _) h (Nat.lt_succ_self _) ?_
  change (if id = id then some () else none).isSome = true
  rw [if_pos rfl]
  rfl

end Expr

namespace Node

theorem expressions_subset {n : Node} {ns : List Node} (h : n ∈ ns) :
    expressions n ⊆ expressionsOf ns := by
  induction ns with
  | nil => cases h
  | cons m ns ih =>
    rcases List.mem_cons.mp h with rfl | h
    · exact List.subset_append_left _ _
    · exact fun code hcode => List.mem_append_right _ (ih h hcode)

theorem expressionsOfOther_subset {o : Code × List Node} {os : List (Code × List Node)}
    (h : o ∈ os) : expressionsOfOther o ⊆ expressionsOfOthers os := by
  induction os with
  | nil => cases h
  | cons m os ih =>
    rcases List.mem_cons.mp h with rfl | h
    · exact List.subset_append_left _ _
    · exact fun code hcode => List.mem_append_right _ (ih h hcode)

theorem mem_expressionsOfOther {o : Code × List Node} {c : Code} (h : c ∈ expressionsOf o.2) :
    c ∈ expressionsOfOther o := by
  obtain ⟨test, body⟩ := o
  exact List.mem_cons_of_mem test h

theorem mention_of_subset {name : String} {ns ms : List Node}
    (hsub : expressionsOf ns ⊆ expressionsOf ms) (hns : mention name ns = true) :
    mention name ms = true := by
  obtain ⟨code, hcode, hmentions⟩ := List.any_eq_true.mp hns
  exact List.any_eq_true.mpr ⟨code, hsub hcode, hmentions⟩

/-- What stands among some nodes is part of one of their expressions. -/
theorem Holds.within {loops loops' : List LoopScope} {ns : List Node} {e : Expr}
    (h : Node.Holds loops ns loops' e) :
    ∃ code ∈ expressionsOf ns, code.expr.outline.Within e.outline := by
  induction h with
  | shown h => exact ⟨_, expressions_subset h List.mem_cons_self, .self⟩
  | given h => exact ⟨_, expressions_subset h List.mem_cons_self, .self⟩
  | test h => exact ⟨_, expressions_subset h List.mem_cons_self, .self⟩
  | again h => exact ⟨_, expressions_subset h List.mem_cons_self, .self⟩
  | source h => exact ⟨_, expressions_subset h List.mem_cons_self, .self⟩
  | target h he =>
    refine ⟨_, expressions_subset h (List.mem_cons_of_mem _ List.mem_cons_self), ?_⟩
    exact Expr.within_of_mem_loads _ he
  | otherTest h ho =>
    refine ⟨_, expressions_subset h (List.mem_cons_of_mem _ ?_), .self⟩
    refine List.mem_append_left _ (List.mem_append_right _ ?_)
    exact expressionsOfOther_subset ho List.mem_cons_self
  | taken h _ ih =>
    obtain ⟨code, hcode, hw⟩ := ih
    refine ⟨code, expressions_subset h (List.mem_cons_of_mem _ ?_), hw⟩
    exact List.mem_append_left _ (List.mem_append_left _ hcode)
  | otherTaken h ho _ ih =>
    obtain ⟨code, hcode, hw⟩ := ih
    refine ⟨code, expressions_subset h (List.mem_cons_of_mem _ ?_), hw⟩
    refine List.mem_append_left _ (List.mem_append_right _ ?_)
    exact expressionsOfOther_subset ho (List.mem_cons_of_mem _ hcode)
  | otherwise h _ ih =>
    obtain ⟨code, hcode, hw⟩ := ih
    refine ⟨code, expressions_subset h (List.mem_cons_of_mem _ ?_), hw⟩
    exact List.mem_append_right _ hcode
  | pass h _ ih =>
    obtain ⟨code, hcode, hw⟩ := ih
    exact ⟨code, expressions_subset h (List.mem_cons_of_mem _ (List.mem_cons_of_mem _ hcode)), hw⟩
  | whilePass h _ ih =>
    obtain ⟨code, hcode, hw⟩ := ih
    exact ⟨code, expressions_subset h (List.mem_cons_of_mem _ hcode), hw⟩

theorem Holds.mention {loops loops' : List LoopScope} {ns : List Node} {whole : Expr}
    {context context' : List Shade} {id : String} (h : Node.Holds loops ns loops' whole)
    (hid : Expr.Holds context whole context' (.name id)) : Node.mention id ns = true := by
  obtain ⟨code, hcode, hw⟩ := h.within
  exact List.any_eq_true.mpr ⟨code, hcode, Expr.mentions_of_within (hw.trans hid.within)⟩

/-- Around an occurrence of `loop` every loop gives it a meaning. -/
theorem Holds.binds_loop {loops loops' : List LoopScope} {ns : List Node} {whole : Expr}
    {context context' : List Shade} (h : Node.Holds loops ns loops' whole)
    (hid : Expr.Holds context whole context' (.name "loop"))
    (hloops : ∀ l ∈ loops, l.Binds "loop") : ∀ l ∈ loops', l.Binds "loop" := by
  induction h with
  | shown _ | given _ | test _ | again _ | source _ | target _ _ | otherTest _ _ => exact hloops
  | taken _ _ ih | otherTaken _ _ _ ih | otherwise _ _ ih | whilePass _ _ ih =>
    exact ih hid hloops
  | @pass loops loops' ns p k target source body e h he ih =>
    refine ih hid fun l hl => ?_
    rcases List.mem_cons.mp hl with rfl | hl
    · by_cases hnames : target.expr.storedNames.contains "loop" = true
      · exact .inl hnames
      · refine .inr ⟨?_, rfl⟩
        change (Node.mention "loop" body && !target.expr.storedNames.contains "loop") = true
        rw [he.mention hid, Bool.eq_false_iff.mpr hnames]
        rfl
    · exact hloops l hl

end Node

end Stencil
