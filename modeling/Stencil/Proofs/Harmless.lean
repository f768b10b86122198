import Stencil.Proofs.Forbidden
import Stencil.Proofs.Reading

/-!
# Harmless trees

A token that is read presents expressions, and each of them is checked as a whole before it goes
anywhere. So all expressions of a tree are harmless, and a source that presents one that is not is
refused.
-/

namespace Stencil

inductive Form
  | expression
  | header
  | list (least most : Nat)
deriving DecidableEq, Repr

def Keyword.form? : Keyword → Option Form
  | opening .ifBlock | opening .whileBlock | elseIf => some .expression
  | opening .foreachBlock | opening .forBlock => some .header
  | opening .sectionBlock | yielding | including => some (.list 1 2)
  | layout => some (.list 1 1)
  | closing _ | otherwise => none

namespace Written

variable {w : Written}

def codes (w : Written) : Form → Except Rejection (List Code)
  | .expression => do return [← w.expression]
  | .header => do
    let (target, source) ← w.loopHeader
    return [target, source]
  | .list least most => w.argumentList least most

/-- The expressions that a text has in the positions of its form: the expression itself, what a
loop runs over in either order of writing, and the arguments of a list. -/
inductive Presents (w : Written) : Form → Expr → Prop
  | expression {e : Expr} (h : Expr.read? w.arguments.toList = some e) : Presents w .expression e
  | sourceIn {header : Expr.LoopHeader} {e : Expr}
      (hheader : Expr.readHeader? w.arguments.stripBlanks.toList = some header)
      (h : Expr.read? header.source.text.toList = some e) : Presents w .header e
  | sourceAs {source target : List Char} {e : Expr}
      (hheader : Expr.readHeader? w.arguments.stripBlanks.toList = none)
      (hsplit : splitAs? w.arguments.stripBlanks.toList = some (source, target))
      (h : Expr.read? source = some e) : Presents w .header e
  | argument {least most : Nat} {list : Expr.ArgumentList} {a : Expr.Written}
      (hlist : Expr.readArguments w.arguments.toList = .ok list) (ha : a ∈ list.positional) :
      Presents w (.list least most) a.expr

theorem areLoopTargets_mem {e : Expr} {es : List Expr} (h : areLoopTargets es = true)
    (he : e ∈ es) : isLoopTarget e = true := by
  induction es with
  | nil => cases he
  | cons e' es ih =>
    rw [areLoopTargets, Bool.and_eq_true] at h
    rcases List.mem_cons.mp he with rfl | he
    · exact h.1
    · exact ih h.2 he

theorem loopTarget_child {e c : Expr} (h : isLoopTarget e = true) (hc : c ∈ e.children) :
    isLoopTarget c = true := by
  cases e with
  | name id => cases hc
  | display kind items =>
    cases kind with
    | tuple => exact areLoopTargets_mem h hc
    | list => exact areLoopTargets_mem h hc
    | set => cases h
  | _ => cases h

theorem loopTarget_harmless {e : Expr} (h : isLoopTarget e = true) : e.IsHarmless := by
  intro f hf hforbidden
  have hinside : isLoopTarget f = true := by
    induction hf with
    | self => exact h
    | child hc _ ih => exact ih (loopTarget_child h hc) hforbidden
  cases hforbidden <;> cases hinside

theorem permitted_harmless {text : String} {e : Expr} (h : w.permitted text e = .ok ()) :
    e.IsHarmless := by
  apply Expr.firstForbidden?_eq_none.mp
  unfold permitted at h
  cases hfound : e.firstForbidden? with
  | none => rfl
  | some construct =>
    rw [hfound] at h
    cases h

theorem expressionOf_harmless {text : String} {code : Code} (h : w.expressionOf text = .ok code) :
    Expr.read? text.toList = some code.expr ∧ code.expr.IsHarmless := by
  unfold expressionOf at h
  split at h
  · cases h
  · split at h
    · cases h
    · rename_i e hread
      obtain ⟨_, hpermitted, h⟩ := Tree.Reading.bind_ok h
      cases h
      exact ⟨hread, permitted_harmless hpermitted⟩

/-- The source of a loop is the one expression that its header presents. -/
theorem loopHeader_harmless {target source : Code} (h : w.loopHeader = .ok (target, source)) :
    isLoopTarget target.expr = true ∧ source.expr.IsHarmless ∧
      ∀ e, w.Presents .header e → source.expr = e := by
  unfold loopHeader at h
  simp only at h
  split at h
  · cases h
  · split at h
    · cases h
    · rename_i target' text hfound
      split at h
      · rename_i htarget
        obtain ⟨source', hsource, h⟩ := Tree.Reading.bind_ok h
        cases h
        obtain ⟨hread, hharmless⟩ := expressionOf_harmless hsource
        refine ⟨htarget, hharmless, ?_⟩
        intro e he
        cases he with
        | sourceIn hheader he =>
          rw [hheader] at hfound
          cases hfound
          exact Option.some.inj (hread.symm.trans he)
        | sourceAs hheader hsplit he =>
          rw [hheader] at hfound
          simp only [hsplit, Option.bind_eq_bind, Option.bind_some] at hfound
          obtain ⟨header, -, hfound⟩ := Option.bind_eq_some_iff.mp hfound
          cases hfound
          rw [String.toList_ofList] at hread
          exact Option.some.inj (hread.symm.trans he)
      · cases h

theorem mem_of_mapM_ok {α β : Type} {f : α → Except Rejection β} {as : List α} {bs : List β}
    (h : as.mapM f = .ok bs) :
    (∀ a ∈ as, ∃ b, f a = .ok b) ∧ ∀ b ∈ bs, ∃ a, f a = .ok b := by
  induction as generalizing bs with
  | nil =>
    cases h
    exact ⟨nofun, nofun⟩
  | cons a as ih =>
    rw [List.mapM_cons] at h
    obtain ⟨b, hb, h⟩ := Tree.Reading.bind_ok h
    obtain ⟨bs', hbs, h⟩ := Tree.Reading.bind_ok h
    cases h
    obtain ⟨hall, hmade⟩ := ih hbs
    constructor
    · exact List.forall_mem_cons.mpr ⟨⟨b, hb⟩, hall⟩
    · exact List.forall_mem_cons.mpr ⟨⟨a, hb⟩, hmade⟩

theorem argumentList_harmless {least most : Nat} {codes : List Code}
    (h : w.argumentList least most = .ok codes) :
    (∀ c ∈ codes, c.expr.IsHarmless) ∧
      ∀ list, Expr.readArguments w.arguments.toList = .ok list →
        ∀ a ∈ list.positional, a.expr.IsHarmless := by
  unfold argumentList at h
  split at h
  · cases h
  · cases h
  · rename_i list hlist
    simp only at h
    split at h
    · cases h
    · split at h
      · cases h
      · have hread {a : Expr.Written} {c : Code}
            (hc : (do
              w.permitted a.text a.expr
              return ⟨w.position, a.text, a.expr⟩ : Except Rejection Code) = .ok c) :
            a.expr.IsHarmless ∧ c.expr = a.expr := by
          obtain ⟨_, hpermitted, hc⟩ := Tree.Reading.bind_ok hc
          cases hc
          exact ⟨permitted_harmless hpermitted, rfl⟩
        obtain ⟨hall, hmade⟩ := mem_of_mapM_ok h
        constructor
        · intro c hc
          obtain ⟨a, hac⟩ := hmade c hc
          rw [(hread hac).2]
          exact (hread hac).1
        · intro list' hlist' a ha
          rw [hlist] at hlist'
          cases hlist'
          obtain ⟨c, hac⟩ := hall a ha
          exact (hread hac).1

/-- Where the expressions of a text are read, they are harmless, and so are those it presents. -/
theorem codes_harmless {form : Form} {codes : List Code} (h : w.codes form = .ok codes) :
    (∀ c ∈ codes, c.expr.IsHarmless) ∧ ∀ e, w.Presents form e → e.IsHarmless := by
  cases form with
  | expression =>
    obtain ⟨code, hcode, h⟩ := Tree.Reading.bind_ok h
    cases h
    obtain ⟨hread, hharmless⟩ := expressionOf_harmless hcode
    constructor
    · exact List.forall_mem_singleton.mpr hharmless
    · intro e he
      cases he with
      | expression he =>
        rw [← Option.some.inj (hread.symm.trans he)]
        exact hharmless
  | header =>
    obtain ⟨⟨target, source⟩, hheader, h⟩ := Tree.Reading.bind_ok h
    cases h
    obtain ⟨htarget, hsource, honly⟩ := loopHeader_harmless hheader
    constructor
    · intro c hc
      rcases List.mem_cons.mp hc with rfl | hc
      · exact loopTarget_harmless htarget
      · rw [List.mem_singleton.mp hc]
        exact hsource
    · intro e he
      rw [← honly e he]
      exact hsource
  | list least most =>
    obtain ⟨hcodes, harguments⟩ := argumentList_harmless h
    constructor
    · exact hcodes
    · intro e he
      cases he with
      | argument hlist ha => exact harguments _ hlist _ ha

end Written

namespace Token

/-- The text of a token that has expressions in it, with its form. -/
def asks? (t : Token) : Option (Form × Written) :=
  match t.kind with
  | .output text | .rawOutput text => some (.expression, ⟨t.position, none, text⟩)
  | .directive k arguments =>
    k.form?.map fun form => (form, ⟨t.position, some k, arguments.getD ""⟩)
  | .data _ | .finish => none

def codes (t : Token) : Except Rejection (List Code) :=
  match t.asks? with
  | some (form, w) => w.codes form
  | none => .ok []

def Presents (t : Token) (e : Expr) : Prop :=
  ∃ form w, t.asks? = some (form, w) ∧ Written.Presents w form e

variable {t : Token}

theorem codes_harmless {codes : List Code} (h : t.codes = .ok codes) :
    (∀ c ∈ codes, c.expr.IsHarmless) ∧ ∀ e, t.Presents e → e.IsHarmless := by
  unfold Token.codes at h
  unfold Presents
  cases hasks : t.asks? with
  | none =>
    rw [hasks] at h
    cases h
    constructor
    · nofun
    · rintro e ⟨form, w, hnone, -⟩
      cases hnone
  | some asked =>
    rw [hasks] at h
    obtain ⟨hcodes, hpresented⟩ := Written.codes_harmless h
    constructor
    · exact hcodes
    · rintro e ⟨form, w, hsame, he⟩
      cases hsame
      exact hpresented e he

theorem codes_of_directive {k : Keyword} {arguments : Option String} {form : Form}
    (hk : t.kind = .directive k arguments) (hform : k.form? = some form) :
    t.codes = Written.codes ⟨t.position, some k, arguments.getD ""⟩ form := by
  unfold Token.codes asks?
  rw [hk]
  simp only [hform]
  rfl

theorem codes_of_plain {k : Keyword} {arguments : Option String}
    (hk : t.kind = .directive k arguments) (hform : k.form? = none) : t.codes = .ok [] := by
  unfold Token.codes asks?
  rw [hk]
  simp only [hform]
  rfl

end Token

namespace Node

theorem expressionsOf_eq (ns : List Node) : expressionsOf ns = ns.flatMap expressions := by
  induction ns with
  | nil => rfl
  | cons n ns ih => rw [expressionsOf, ih, List.flatMap_cons]

theorem mem_expressionsOf_reverse {c : Code} {ns : List Node} :
    c ∈ expressionsOf ns.reverse ↔ c ∈ expressionsOf ns := by
  simp [expressionsOf_eq]

theorem expressionsOfOthers_append (os os' : List (Code × List Node)) :
    expressionsOfOthers (os ++ os') = expressionsOfOthers os ++ expressionsOfOthers os' := by
  induction os with
  | nil => rfl
  | cons o os ih => simp [expressionsOfOthers, ih]

end Node

namespace Tree

open Node (expressionsOf expressionsOfOthers mem_expressionsOf_reverse)

def Opening.codes : Opening → List Code
  | .sectionOf _ => []
  | .firstBranch test | .loopWhile test => [test]
  | .laterBranch test body others current =>
    test :: (expressionsOf body ++ expressionsOfOthers others ++ [current])
  | .lastBranch test body others => test :: (expressionsOf body ++ expressionsOfOthers others)
  | .loopOver _ target source => [target, source]

def Frame.codes (f : Frame) : List Code := f.opening.codes ++ expressionsOf f.done

def Item.codes : Item → List Code
  | .node n => n.expressions
  | .section s => expressionsOf s.body

/-- The branches of a conditional have the expressions that it has read. -/
theorem Frame.Branches.codes_subset {f : Frame} {test : Code} {first : List Node}
    {others : List (Code × List Node)} (h : f.Branches test first others) :
    test :: (expressionsOf first ++ expressionsOfOthers others) ⊆ f.codes := by
  intro c hc
  cases h with
  | first hf =>
    simp only [expressionsOfOthers, List.append_nil, List.mem_cons,
      mem_expressionsOf_reverse] at hc
    simpa [Frame.codes, hf, Opening.codes] using hc
  | later hf =>
    simp only [Node.expressionsOfOthers_append, expressionsOfOthers, Node.expressionsOfOther,
      List.append_nil, List.mem_append, List.mem_cons, mem_expressionsOf_reverse] at hc
    simp only [Frame.codes, hf, Opening.codes, List.mem_append, List.mem_cons]
    grind

namespace Reading

def codes (r : Reading) : List Code := r.frames.flatMap Frame.codes ++ r.items.flatMap Item.codes

variable {r r' : Reading} {t : Token} {c : Code}

theorem mem_codes_of_cons {f : Frame} {fs : List Frame} (hr : r.frames = f :: fs) :
    c ∈ r.codes ↔ c ∈ f.codes ∨ c ∈ { r with frames := fs }.codes := by
  simp [codes, hr]

theorem mem_codes_item (i : Item) :
    c ∈ { r with items := i :: r.items }.codes ↔ c ∈ i.codes ∨ c ∈ r.codes := by
  simp only [codes, List.flatMap_cons, List.mem_append]
  exact or_left_comm

theorem mem_codes_push {n : Node} : c ∈ (r.push n).codes ↔ c ∈ n.expressions ∨ c ∈ r.codes := by
  unfold push
  split
  · exact mem_codes_item (.node n)
  · rename_i f fs hframes
    simp only [codes, hframes, Frame.codes, expressionsOf, List.flatMap_cons, List.mem_append]
    grind

theorem mem_codes_enter {p : Text.Position} {o : Opening} :
    c ∈ (r.enter p o).codes ↔ c ∈ o.codes ∨ c ∈ r.codes := by
  simp [enter, codes, Frame.codes, expressionsOf]

/-- Closing a block puts its expressions into one node of the block around it. -/
theorem mem_codes_close {f : Frame} {fs : List Frame} (hr : r.frames = f :: fs)
    (hc : c ∈ (r.close f fs).codes) : c ∈ r.codes := by
  have hdone (h : c ∈ expressionsOf f.done.reverse) : c ∈ f.codes :=
    List.mem_append_right _ (mem_expressionsOf_reverse.mp h)
  have hopened (h : c ∈ f.opening.codes) : c ∈ f.codes := List.mem_append_left _ h
  have hnil : expressionsOf [] = [] := rfl
  rw [mem_codes_of_cons hr]
  unfold close at hc
  cases hopening : f.opening with
  | sectionOf name =>
    simp only [hopening] at hc
    exact ((mem_codes_item (r := { r with frames := fs }) (.section _)).mp hc).imp_left hdone
  | firstBranch test =>
    simp only [hopening, mem_codes_push, Node.expressions, hnil, List.append_nil] at hc
    exact hc.imp_left fun h => (Frame.Branches.first hopening).codes_subset h
  | laterBranch test body others current =>
    simp only [hopening, mem_codes_push, Node.expressions, hnil, List.append_nil] at hc
    exact hc.imp_left fun h => (Frame.Branches.later hopening).codes_subset h
  | lastBranch test body others =>
    simp only [hopening, mem_codes_push, Node.expressions] at hc
    rw [hopening, Opening.codes] at hopened
    apply hc.imp_left
    intro h
    rcases List.mem_cons.mp h with rfl | h
    · exact hopened List.mem_cons_self
    rcases List.mem_append.mp h with h | h
    · exact hopened (List.mem_cons_of_mem _ h)
    · exact hdone h
  | loopOver k target source =>
    simp only [hopening, mem_codes_push, Node.expressions, List.mem_cons] at hc
    rw [hopening, Opening.codes] at hopened
    apply hc.imp_left
    rintro (rfl | rfl | h)
    · exact hopened (List.mem_cons_of_mem _ List.mem_cons_self)
    · exact hopened List.mem_cons_self
    · exact hdone h
  | loopWhile test =>
    simp only [hopening, mem_codes_push, Node.expressions, List.mem_cons] at hc
    rw [hopening, Opening.codes] at hopened
    apply hc.imp_left
    rintro (rfl | h)
    · exact hopened List.mem_cons_self
    · exact hdone h

theorem leaf_codes {n : Node} (h : t.MakesLeaf n) :
    ∃ codes, t.codes = .ok codes ∧ n.expressions ⊆ codes := by
  cases h with
  | data hk =>
    refine ⟨[], ?_, List.Subset.refl _⟩
    unfold Token.codes Token.asks?
    rw [hk]
  | @output text code hk hcode =>
    refine ⟨[code], ?_, List.Subset.refl _⟩
    unfold Token.codes Token.asks?
    rw [hk]
    exact ok_bind hcode
  | @rawOutput text code hk hcode =>
    refine ⟨[code], ?_, List.Subset.refl _⟩
    unfold Token.codes Token.asks?
    rw [hk]
    exact ok_bind hcode
  | yielding hk hplace =>
    obtain ⟨list, hlist, -⟩ := bind_ok hplace
    exact ⟨list, (Token.codes_of_directive hk rfl).trans hlist, List.nil_subset _⟩
  | @including arguments name given list hk hlist hgiven =>
    refine ⟨list, (Token.codes_of_directive hk rfl).trans hlist, ?_⟩
    intro c hc
    have hmem : c ∈ (list.drop 1).head? := hgiven ▸ Option.mem_toList.mp hc
    exact List.mem_of_mem_drop (List.mem_of_mem_head? hmem)

theorem opening_codes {o : Opening} (h : t.Opens o) :
    ∃ codes, t.codes = .ok codes ∧ o.codes ⊆ codes := by
  cases h with
  | @conditional arguments test hk htest =>
    exact ⟨[test], (Token.codes_of_directive hk rfl).trans (ok_bind htest), List.Subset.refl _⟩
  | @loopOver arguments k target source hk hheader =>
    have hform : (Keyword.opening k.block).form? = some .header := by cases k <;> rfl
    have hcodes := (Token.codes_of_directive hk hform).trans (ok_bind hheader)
    exact ⟨[target, source], hcodes, List.Subset.refl _⟩
  | @loopWhile arguments test hk htest =>
    exact ⟨[test], (Token.codes_of_directive hk rfl).trans (ok_bind htest), List.Subset.refl _⟩
  | @«section» arguments name list hk hlist =>
    exact ⟨list, (Token.codes_of_directive hk rfl).trans hlist, List.nil_subset _⟩

/-- A conditional goes on with the expressions that it has read, and maybe with a test. -/
theorem mem_codes_branch {f : Frame} {fs : List Frame} {o : Opening} (hr : r.frames = f :: fs)
    {codes : List Code} (ho : o.codes ⊆ f.codes ++ codes)
    (hc : c ∈ { r with frames := ⟨f.position, o, []⟩ :: fs }.codes) : c ∈ codes ∨ c ∈ r.codes := by
  rw [mem_codes_of_cons (r := { r with frames := ⟨f.position, o, []⟩ :: fs }) rfl, Frame.codes,
    expressionsOf, List.append_nil] at hc
  rw [mem_codes_of_cons hr]
  rcases hc with hc | hc
  · rcases List.mem_append.mp (ho hc) with hc | hc
    · exact .inr (.inl hc)
    · exact .inl hc
  · exact .inr (.inr hc)

/-- All that reading a token adds are the expressions of the token. -/
theorem Does.codes (h : r.Does t r') :
    ∃ codes, t.codes = .ok codes ∧ ∀ c ∈ r'.codes, c ∈ codes ∨ c ∈ r.codes := by
  cases h with
  | push hn =>
    obtain ⟨codes, hcodes, hsubset⟩ := leaf_codes hn
    refine ⟨codes, hcodes, ?_⟩
    intro c hc
    exact (mem_codes_push.mp hc).imp_left fun h => hsubset h
  | enter ho hinner =>
    obtain ⟨codes, hcodes, hsubset⟩ := opening_codes ho
    refine ⟨codes, hcodes, ?_⟩
    intro c hc
    exact (mem_codes_enter.mp hc).imp_left fun h => hsubset h
  | @branch f fs arguments test next first others hr hf hk hnext =>
    have hcodes := (Token.codes_of_directive hk rfl).trans (ok_bind hnext)
    have hsubset : (Opening.laterBranch test first others next).codes ⊆ f.codes ++ [next] := by
      intro c hc
      rw [Opening.codes, ← List.cons_append] at hc
      rcases List.mem_append.mp hc with hc | hc
      · exact List.mem_append_left _ (hf.codes_subset hc)
      · exact List.mem_append_right _ hc
    exact ⟨[next], hcodes, fun c hc => mem_codes_branch hr hsubset hc⟩
  | @lastBranch f fs arguments test first others hr hf hk =>
    have hsubset : (Opening.lastBranch test first others).codes ⊆ f.codes ++ [] := by
      rw [List.append_nil]
      exact hf.codes_subset
    exact ⟨[], Token.codes_of_plain hk rfl, fun c hc => mem_codes_branch hr hsubset hc⟩
  | close hr hk =>
    exact ⟨[], Token.codes_of_plain hk rfl, fun c hc => .inr (mem_codes_close hr hc)⟩
  | @inlineSection arguments name value list hk hinner hlist hvalue =>
    refine ⟨list, (Token.codes_of_directive hk rfl).trans hlist, ?_⟩
    intro c hc
    rcases (mem_codes_item (.section _)).mp hc with hc | hc
    · rw [List.mem_singleton.mp hc]
      exact .inl hvalue
    · exact .inr hc
  | @layout arguments name list hk hinner hlayout hlist =>
    exact ⟨list, (Token.codes_of_directive hk rfl).trans hlist, fun c hc => .inr hc⟩
  | finish hk hr =>
    refine ⟨[], ?_, fun c hc => .inr hc⟩
    unfold Token.codes Token.asks?
    rw [hk]

/-- Tokens that are read leave nothing behind that is not harmless. -/
theorem foldlM_harmless {tokens : List Token} (h : tokens.foldlM step empty = .ok r) :
    ∀ c ∈ r.codes, c.expr.IsHarmless := by
  have hstep (t : Token) (_ : t ∈ tokens) (r r' : Reading)
      (hr : ∀ c ∈ r.codes, c.expr.IsHarmless) (hdoes : r.Does t r') :
      ∀ c ∈ r'.codes, c.expr.IsHarmless := by
    obtain ⟨codes, hcodes, hgrows⟩ := hdoes.codes
    intro c hc
    rcases hgrows c hc with hc | hc
    · exact (Token.codes_harmless hcodes).1 c hc
    · exact hr c hc
  have hempty : ∀ c ∈ empty.codes, c.expr.IsHarmless := fun c hc => absurd hc List.not_mem_nil
  exact foldlM_keeps hstep hempty h

end Reading

theorem Item.codes_eq (i : Item) : i.codes = expressionsOf i.nodes := by
  cases i with
  | node n => exact (List.append_nil _).symm
  | «section» s => rfl

end Tree

namespace Source

variable {s : Source} {tree : Tree} {warnings : List String}

theorem tree_harmless (h : s.tree = .ok (tree, warnings)) {body : List Node}
    (hbody : body ∈ tree.bodies) {c : Code} (hc : c ∈ Node.expressionsOf body) :
    c.expr.IsHarmless := by
  obtain ⟨tokens, r, orphans, -, hrun, hassemble⟩ := tree_reading h
  rw [Node.expressionsOf_eq] at hc
  obtain ⟨n, hn, hc⟩ := List.mem_flatMap.mp hc
  obtain ⟨i, hi, hin⟩ := Tree.assemble_nodes hassemble hbody hn
  have hitem : c ∈ i.codes := by
    rw [Tree.Item.codes_eq, Node.expressionsOf_eq]
    exact List.mem_flatMap.mpr ⟨n, hin, hc⟩
  have hread : c ∈ r.codes :=
    List.mem_append_right _ (List.mem_flatMap.mpr ⟨i, List.mem_reverse.mp hi, hitem⟩)
  exact Tree.Reading.foldlM_harmless hrun c hread

theorem presented_harmless (h : s.tree = .ok (tree, warnings)) {tokens : List Token}
    (htokens : s.tokens = .ok tokens) {t : Token} (ht : t ∈ tokens) {e : Expr}
    (he : t.Presents e) : e.IsHarmless := by
  obtain ⟨tokens', r, orphans, htokens', hrun, -⟩ := tree_reading h
  rw [htokens] at htokens'
  cases htokens'
  obtain ⟨r₁, r₂, hdoes⟩ := Tree.Reading.foldlM_reads hrun ht
  obtain ⟨codes, hcodes, -⟩ := hdoes.codes
  exact (Token.codes_harmless hcodes).2 e he

/-- In the tree of a source no expression has a forbidden construct inside of it, and a source is
refused if a token of it presents one that has. -/
theorem forbidden_refused (s : Source) :
    (∀ tree warnings, s.tree = .ok (tree, warnings) → ∀ body ∈ tree.bodies,
      ∀ c ∈ Node.expressionsOf body, c.expr.IsHarmless) ∧
      ∀ tokens, s.tokens = .ok tokens → ∀ t ∈ tokens, ∀ e, t.Presents e → ¬ e.IsHarmless →
        ∃ f, s.tree = .error f := by
  constructor
  · intro tree warnings h body hbody c hc
    exact tree_harmless h hbody hc
  · intro tokens htokens t ht e he hharm
    cases htree : s.tree with
    | error f => exact ⟨f, rfl⟩
    | ok read => exact absurd (presented_harmless htree htokens ht he) hharm

/-- A loop over a comprehension that looks at attributes with a plain name. -/
def plainLoop : Source := ⟨"@for(x in [f(y.name) for y in xs])-@endfor", some "page", none⟩

/-- The same with a hidden name. -/
def hiddenLoop : Source := ⟨"@for(x in [f(y.__class__) for y in xs])-@endfor", some "page", none⟩

def hiddenToken : Token :=
  ⟨.directive (.opening .forBlock) (some "x in [f(y.__class__) for y in xs]"), ⟨1, 0⟩⟩

theorem hiddenToken_presents :
    ∃ e, hiddenToken.Presents e ∧ e.firstForbidden? = some (.hiddenAttribute "__class__") := by
  have hheader : (Expr.readHeader? "x in [f(y.__class__) for y in xs]".stripBlanks.toList).map
      (·.source.text) = some "[f(y.__class__) for y in xs]" := by decide +kernel
  have hread : (Expr.read? "[f(y.__class__) for y in xs]".toList).map (·.firstForbidden?) =
      some (some (.hiddenAttribute "__class__")) := by decide +kernel
  obtain ⟨header, hheader, htext⟩ := Option.map_eq_some_iff.mp hheader
  obtain ⟨e, he, hforbidden⟩ := Option.map_eq_some_iff.mp hread
  rw [← htext] at he
  exact ⟨e, ⟨.header, _, rfl, .sourceIn hheader he⟩, hforbidden⟩

theorem loops_forbidden_refused :
    (∃ tree warnings, plainLoop.tree = .ok (tree, warnings) ∧ ∀ body ∈ tree.bodies,
      ∀ c ∈ Node.expressionsOf body, c.expr.IsHarmless) ∧
      ∃ tokens, hiddenLoop.tokens = .ok tokens ∧ hiddenToken ∈ tokens ∧
        ∃ e, hiddenToken.Presents e ∧ ¬ e.IsHarmless ∧ ∃ f, hiddenLoop.tree = .error f := by
  constructor
  · have hread : plainLoop.tree.toOption.isSome = true := by decide +kernel
    cases htree : plainLoop.tree with
    | error f =>
      rw [htree] at hread
      cases hread
    | ok read => exact ⟨read.1, read.2, rfl, (forbidden_refused plainLoop).1 _ _ htree⟩
  · have hmem : hiddenLoop.tokens.toOption.any (hiddenToken ∈ ·) = true := by decide +kernel
    cases htokens : hiddenLoop.tokens with
    | error e =>
      rw [htokens] at hmem
      cases hmem
    | ok tokens =>
      rw [htokens] at hmem
      have ht : hiddenToken ∈ tokens := of_decide_eq_true hmem
      obtain ⟨e, he, hforbidden⟩ := hiddenToken_presents
      have hharm : ¬ e.IsHarmless := by
        rw [← Expr.firstForbidden?_eq_none, hforbidden]
        nofun
      exact ⟨tokens, rfl, ht, e, he, hharm,
        (forbidden_refused hiddenLoop).2 tokens htokens _ ht e he hharm⟩

end Source

end Stencil
