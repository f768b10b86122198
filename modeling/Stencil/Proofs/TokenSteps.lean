import Stencil.Tree.Blocks

/-!
# What one token does

A token that is read makes a leaf, opens a block, takes a conditional to its next branch, closes
the innermost block, is a section of its own, names the layout or ends the source. What is to hold
of all that is ever read needs to be kept by these, and by nothing else.
-/

namespace Stencil

namespace Token

inductive MakesLeaf (t : Token) : Node → Prop
  | data {text : String} (hk : t.kind = .data text) : MakesLeaf t (.data t.position text)
  | output {text : String} {code : Code} (hk : t.kind = .output text)
      (hcode : Written.expression ⟨t.position, none, text⟩ = .ok code) :
      MakesLeaf t (.output t.position code true)
  | rawOutput {text : String} {code : Code} (hk : t.kind = .rawOutput text)
      (hcode : Written.expression ⟨t.position, none, text⟩ = .ok code) :
      MakesLeaf t (.output t.position code false)
  | yielding {arguments : Option String} {name default : String}
      (hk : t.kind = .directive .yielding arguments)
      (hplace : Written.place ⟨t.position, some .yielding, arguments.getD ""⟩ =
        .ok (name, default)) :
      MakesLeaf t (.yielding t.position name default)
  | including {arguments : Option String} {name : String} {given : Option Code}
      {list : List Code} (hk : t.kind = .directive .including arguments)
      (hlist : Written.argumentList ⟨t.position, some .including, arguments.getD ""⟩ 1 2 = .ok list)
      (hgiven : (list.drop 1).head? = given) : MakesLeaf t (.including t.position name given)

inductive Opens (t : Token) : Tree.Opening → Prop
  | conditional {arguments : Option String} {test : Code}
      (hk : t.kind = .directive (.opening .ifBlock) arguments)
      (htest : Written.expression ⟨t.position, some (.opening .ifBlock), arguments.getD ""⟩ =
        .ok test) : Opens t (.firstBranch test)
  | loopOver {arguments : Option String} {k : LoopKeyword} {target source : Code}
      (hk : t.kind = .directive (.opening k.block) arguments)
      (hheader : Written.loopHeader ⟨t.position, some (.opening k.block), arguments.getD ""⟩ =
        .ok (target, source)) : Opens t (.loopOver k target source)
  | loopWhile {arguments : Option String} {test : Code}
      (hk : t.kind = .directive (.opening .whileBlock) arguments)
      (htest : Written.expression ⟨t.position, some (.opening .whileBlock), arguments.getD ""⟩ =
        .ok test) : Opens t (.loopWhile test)
  | section {arguments : Option String} {name : String} {list : List Code}
      (hk : t.kind = .directive (.opening .sectionBlock) arguments)
      (hlist : Written.argumentList
        ⟨t.position, some (.opening .sectionBlock), arguments.getD ""⟩ 1 2 = .ok list) :
      Opens t (.sectionOf name)

theorem Opens.kind {t : Token} {o : Tree.Opening} (h : t.Opens o) :
    ∃ arguments, t.kind = .directive (.opening o.block) arguments := by
  cases h with
  | conditional hk htest => exact ⟨_, hk⟩
  | loopOver hk hheader => exact ⟨_, hk⟩
  | loopWhile hk htest => exact ⟨_, hk⟩
  | «section» hk hlist => exact ⟨_, hk⟩

end Token

namespace Tree

/-- The finished branches of a conditional once the one that is being read is put behind them:
the test and the body of the first, and the others. -/
inductive Frame.Branches (f : Frame) : Code → List Node → List (Code × List Node) → Prop
  | first {test : Code} (hf : f.opening = .firstBranch test) : Branches f test f.done.reverse []
  | later {test current : Code} {first : List Node} {others : List (Code × List Node)}
      (hf : f.opening = .laterBranch test first others current) :
      Branches f test first (others ++ [(current, f.done.reverse)])

theorem Frame.Branches.block {f : Frame} {test : Code} {first : List Node}
    {others : List (Code × List Node)} (h : f.Branches test first others) :
    f.opening.block = .ifBlock := by
  cases h with
  | first hf => rw [hf]; rfl
  | later hf => rw [hf]; rfl

namespace Reading

variable {r r' : Reading} {t : Token}

/-- What reading a token does. -/
inductive Does (r : Reading) (t : Token) : Reading → Prop
  | push {n : Node} (hn : t.MakesLeaf n) : Does r t (r.push n)
  | enter {o : Opening} (ho : t.Opens o)
      (hinner : o.block = .sectionBlock → r.innermost = none) : Does r t (r.enter t.position o)
  | branch {f : Frame} {fs : List Frame} {arguments : Option String} {test next : Code}
      {first : List Node} {others : List (Code × List Node)} (hr : r.frames = f :: fs)
      (hf : f.Branches test first others) (hk : t.kind = .directive .elseIf arguments)
      (hnext : Written.expression ⟨t.position, some .elseIf, arguments.getD ""⟩ = .ok next) :
      Does r t { r with frames := ⟨f.position, .laterBranch test first others next, []⟩ :: fs }
  | lastBranch {f : Frame} {fs : List Frame} {arguments : Option String} {test : Code}
      {first : List Node} {others : List (Code × List Node)} (hr : r.frames = f :: fs)
      (hf : f.Branches test first others) (hk : t.kind = .directive .otherwise arguments) :
      Does r t { r with frames := ⟨f.position, .lastBranch test first others, []⟩ :: fs }
  | close {f : Frame} {fs : List Frame} {arguments : Option String} (hr : r.frames = f :: fs)
      (hk : t.kind = .directive (.closing f.opening.block) arguments) : Does r t (r.close f fs)
  | inlineSection {arguments : Option String} {name : String} {value : Code} {list : List Code}
      (hk : t.kind = .directive (.opening .sectionBlock) arguments)
      (hinner : r.innermost = none)
      (hlist : Written.argumentList
        ⟨t.position, some (.opening .sectionBlock), arguments.getD ""⟩ 1 2 = .ok list)
      (hvalue : value ∈ list) :
      Does r t { r with
        items := .section ⟨t.position, name, [.output t.position value true]⟩ :: r.items }
  | layout {arguments : Option String} {name : String} {list : List Code}
      (hk : t.kind = .directive .layout arguments) (hinner : r.innermost = none)
      (hlayout : r.layout = none)
      (hlist : Written.argumentList ⟨t.position, some .layout, arguments.getD ""⟩ 1 1 = .ok list) :
      Does r t { r with layout := some ⟨t.position, name⟩ }
  | finish (hk : t.kind = .finish) (hr : r.frames = []) : Does r t r

theorem Does.eq_of_finish {r r' : Reading} {t : Token} (h : r.Does t r') (ht : t.kind = .finish) :
    r' = r := by
  cases h with
  | push hn => cases hn <;> cases ht.symm.trans ‹t.kind = _›
  | enter ho hinner => cases ht.symm.trans ho.kind.choose_spec
  | finish hk hr => rfl
  | _ => cases ht.symm.trans ‹t.kind = _›

theorem ok_bind {α β : Type} {x : Except Rejection α} {f : α → Except Rejection β} {a : α}
    (h : x = .ok a) : (x >>= f) = f a := by
  rw [h]
  rfl

theorem bind_ok {α β : Type} {x : Except Rejection α} {f : α → Except Rejection β} {b : β}
    (h : (x >>= f) = .ok b) : ∃ a, x = .ok a ∧ f a = .ok b := by
  cases x with
  | error e => cases h
  | ok a => exact ⟨a, rfl, h⟩

theorem bind_error {α β : Type} {x : Except Rejection α} {f : α → Except Rejection β}
    {e : Rejection} (h : (x >>= f) = .error e) :
    x = .error e ∨ ∃ a, x = .ok a ∧ f a = .error e := by
  cases x with
  | error e' =>
    cases h
    exact .inl rfl
  | ok a => exact .inr ⟨a, rfl, h⟩

theorem opening_does {b : Block} {arguments : Option String}
    (hk : t.kind = .directive (.opening b) arguments)
    (h : r.opening b ⟨t.position, some (.opening b), arguments.getD ""⟩ = .ok r') :
    r.Does t r' := by
  unfold opening at h
  cases b with
  | ifBlock =>
    obtain ⟨test, htest, h⟩ := bind_ok h
    cases h
    exact .enter (.conditional hk htest) nofun
  | whileBlock =>
    obtain ⟨test, htest, h⟩ := bind_ok h
    cases h
    exact .enter (.loopWhile hk htest) nofun
  | foreachBlock =>
    obtain ⟨header, hheader, h⟩ := bind_ok h
    cases h
    exact .enter (.loopOver (k := .foreach) hk hheader) nofun
  | forBlock =>
    obtain ⟨header, hheader, h⟩ := bind_ok h
    cases h
    exact .enter (.loopOver (k := .for) hk hheader) nofun
  | sectionBlock =>
    cases hinner : r.innermost with
    | some b =>
      rw [hinner] at h
      cases h
    | none =>
      rw [hinner] at h
      obtain ⟨list, hlist, h⟩ := bind_ok h
      obtain ⟨name, _, h⟩ := bind_ok h
      split at h
      · rename_i value rest hrest
        cases h
        have hvalue : value ∈ list.drop 1 := hrest ▸ List.mem_cons_self
        exact .inlineSection hk hinner hlist (List.mem_of_mem_drop hvalue)
      · cases h
        exact .enter (.section hk hlist) fun _ => hinner

theorem branch_does {arguments : Option String} (hk : t.kind = .directive .elseIf arguments)
    (h : r.branch ⟨t.position, some .elseIf, arguments.getD ""⟩ = .ok r') : r.Does t r' := by
  unfold branch at h
  split at h
  · rename_i f fs hr
    split at h
    · rename_i test hopening
      obtain ⟨next, hnext, h⟩ := bind_ok h
      cases h
      exact .branch hr (.first hopening) hk hnext
    · rename_i test first others current hopening
      obtain ⟨next, hnext, h⟩ := bind_ok h
      cases h
      exact .branch hr (.later hopening) hk hnext
    · cases h
  · cases h

theorem lastBranch_does {arguments : Option String}
    (hk : t.kind = .directive .otherwise arguments) {p : Text.Position}
    (h : r.lastBranch p = .ok r') : r.Does t r' := by
  unfold lastBranch at h
  split at h
  · rename_i f fs hr
    split at h
    · rename_i test hopening
      cases h
      exact .lastBranch hr (.first hopening) hk
    · rename_i test first others current hopening
      cases h
      exact .lastBranch hr (.later hopening) hk
    · cases h
  · cases h

theorem closing_does {b : Block} {arguments : Option String}
    (hk : t.kind = .directive (.closing b) arguments) {p : Text.Position}
    (h : r.closing b p = .ok r') : r.Does t r' := by
  unfold closing at h
  split at h
  · rename_i f fs hr
    split at h
    · rename_i hf
      cases h
      exact .close hr (hf ▸ hk)
    · cases h
  · cases h

theorem layout_does {arguments : Option String} (hk : t.kind = .directive .layout arguments)
    (h : r.layoutDirective ⟨t.position, some .layout, arguments.getD ""⟩ = .ok r') :
    r.Does t r' := by
  unfold layoutDirective at h
  split at h
  · cases h
  · cases h
  · rename_i hinner hlayout
    obtain ⟨list, hlist, h⟩ := bind_ok h
    obtain ⟨name, _, h⟩ := bind_ok h
    cases h
    exact .layout hk hinner hlayout hlist

theorem does_of_step (h : r.step t = .ok r') : r.Does t r' := by
  unfold step at h
  cases hkind : t.kind with
  | data text =>
    rw [hkind] at h
    cases h
    exact .push (.data hkind)
  | output text =>
    rw [hkind] at h
    obtain ⟨code, hcode, h⟩ := bind_ok h
    cases h
    exact .push (.output hkind hcode)
  | rawOutput text =>
    rw [hkind] at h
    obtain ⟨code, hcode, h⟩ := bind_ok h
    cases h
    exact .push (.rawOutput hkind hcode)
  | finish =>
    rw [hkind] at h
    simp only [finish] at h
    split at h
    · rename_i hr
      cases h
      exact .finish hkind hr
    · cases h
  | directive k arguments =>
    rw [hkind] at h
    simp only [directive] at h
    cases k with
    | opening b => exact opening_does hkind h
    | closing b => exact closing_does hkind h
    | elseIf => exact branch_does hkind h
    | otherwise => exact lastBranch_does hkind h
    | layout => exact layout_does hkind h
    | yielding =>
      obtain ⟨⟨name, default⟩, hplace, h⟩ := bind_ok h
      cases h
      exact .push (.yielding hkind hplace)
    | including =>
      obtain ⟨list, hlist, h⟩ := bind_ok h
      obtain ⟨name, _, h⟩ := bind_ok h
      cases h
      exact .push (.including hkind hlist rfl)

theorem foldlM_keeps {tokens : List Token} {P : Reading → Prop}
    (hstep : ∀ t ∈ tokens, ∀ r r', P r → r.Does t r' → P r') (hr : P r)
    (h : tokens.foldlM step r = .ok r') : P r' := by
  induction tokens generalizing r with
  | nil =>
    cases h
    exact hr
  | cons t tokens ih =>
    rw [List.foldlM_cons] at h
    obtain ⟨next, hnext, h⟩ := bind_ok h
    refine ih (fun t ht => hstep t (List.mem_cons_of_mem _ ht)) ?_ h
    exact hstep t List.mem_cons_self r next hr (does_of_step hnext)

theorem foldlM_reads {tokens : List Token} (h : tokens.foldlM step r = .ok r')
    (ht : t ∈ tokens) : ∃ r₁ r₂ : Reading, r₁.Does t r₂ := by
  induction tokens generalizing r with
  | nil => cases ht
  | cons t' tokens ih =>
    rw [List.foldlM_cons] at h
    obtain ⟨next, hnext, h⟩ := bind_ok h
    rcases List.mem_cons.mp ht with rfl | ht
    · exact ⟨r, next, does_of_step hnext⟩
    · exact ih h ht

end Reading

end Tree

end Stencil
