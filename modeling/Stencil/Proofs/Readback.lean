import Stencil.Proofs.Grammar
import Stencil.Proofs.Reading

/-!
# Reading a tree back

Tokens whose arguments are valid by themselves make a page if and only if they are a body of the
block grammar. The page then still tells them: read from left to right it has the same literal
texts, interpolations and directives at the same places. Only the empty last branch of a
conditional leaves no trace.
-/

namespace Stencil

open Text (Position)

/-- What a tree keeps of a token. -/
inductive Mark
  | data (position : Position) (text : String)
  | interpolation (position : Position) (text : String) (escaped : Bool)
  | directive (keyword : Keyword) (position : Option Position)
deriving DecidableEq, Repr

namespace Mark

def opening (b : Block) (p : Position) : Mark := directive (.opening b) (some p)

def closing (b : Block) : Mark := directive (.closing b) none

def elseIf (p : Position) : Mark := directive .elseIf (some p)

def otherwise : Mark := directive .otherwise none

end Mark

namespace Token

/-- What is kept of a token: of closers and of `@else` only that they were there. -/
def mark? (t : Token) : Option Mark :=
  match t.kind with
  | .data text => some (.data t.position text)
  | .output text => some (.interpolation t.position text.stripBlanks true)
  | .rawOutput text => some (.interpolation t.position text.stripBlanks false)
  | .directive (.closing b) _ => some (.closing b)
  | .directive .otherwise _ => some .otherwise
  | .directive k _ => some (.directive k (some t.position))
  | .finish => none

/-- The token may stand in a page and its arguments are valid by themselves. -/
def IsSound (t : Token) : Prop :=
  match t.kind with
  | .data _ => True
  | .output text | .rawOutput text => ∃ code, Written.expression ⟨t.position, none, text⟩ = .ok code
  | .directive k arguments =>
    let w : Written := ⟨t.position, some k, arguments.getD ""⟩
    match k with
    | .opening .ifBlock | .opening .whileBlock | .elseIf => ∃ test, w.expression = .ok test
    | .opening .foreachBlock | .opening .forBlock => ∃ header, w.loopHeader = .ok header
    | .yielding => ∃ place, w.place = .ok place
    | .including => ∃ name, (do
        w.literal "Template name" ((← w.argumentList 1 2).headD default)) = .ok name
    | .closing _ | .otherwise => True
    | .opening .sectionBlock | .layout => False
  | .finish => False

instance {ε α : Type} (x : Except ε α) : Decidable (∃ a, x = .ok a) :=
  match x with
  | .ok a => .isTrue ⟨a, rfl⟩
  | .error _ => .isFalse nofun

instance : DecidablePred IsSound
  | ⟨.data _, _⟩ => inferInstanceAs (Decidable True)
  | ⟨.output _, _⟩ | ⟨.rawOutput _, _⟩ => inferInstanceAs (Decidable (∃ _, _ = _))
  | ⟨.finish, _⟩ => inferInstanceAs (Decidable False)
  | ⟨.directive k _, _⟩ =>
    match k with
    | .opening .ifBlock | .opening .whileBlock | .elseIf | .opening .foreachBlock
    | .opening .forBlock | .yielding | .including => inferInstanceAs (Decidable (∃ _, _ = _))
    | .closing _ | .otherwise => inferInstanceAs (Decidable True)
    | .opening .sectionBlock | .layout => inferInstanceAs (Decidable False)

end Token

namespace Node

mutual

/-- What a node reads as from left to right. -/
def marks : Node → List Mark
  | .data p text => [.data p text]
  | .output p code escaped => [.interpolation p code.text escaped]
  | .yielding p _ _ => [.directive .yielding (some p)]
  | .including p _ _ => [.directive .including (some p)]
  | .conditional p _ body others otherwise =>
    .opening .ifBlock p :: (marksOf body ++ marksOfOthers others ++ marksOfLast otherwise ++
      [.closing .ifBlock])
  | .loop p k _ _ body => .opening k.block p :: (marksOf body ++ [.closing k.block])
  | .whileLoop p _ body => .opening .whileBlock p :: (marksOf body ++ [.closing .whileBlock])

def marksOf : List Node → List Mark
  | [] => []
  | n :: ns => marks n ++ marksOf ns

def marksOfOthers : List (Code × List Node) → List Mark
  | [] => []
  | o :: os => marksOfOther o ++ marksOfOthers os

def marksOfOther : Code × List Node → List Mark
  | (test, body) => .elseIf test.position :: marksOf body

def marksOfLast : List Node → List Mark
  | [] => []
  | n :: ns => .otherwise :: (marks n ++ marksOf ns)

end

end Node

namespace Mark

/-- Leaves out every `@else` directly in front of `@endif`. -/
def forgetEmptyElse : List Mark → List Mark
  | [] => []
  | m :: ms =>
    if m = otherwise ∧ ms.head? = some (closing .ifBlock) then forgetEmptyElse ms
    else m :: forgetEmptyElse ms

/-- One more mark; an `@else` directly in front of it is left out if it is `@endif`. -/
def add (ms : List Mark) (m : Mark) : List Mark :=
  if m = closing .ifBlock ∧ ms.getLast? = some otherwise then ms.dropLast ++ [m] else ms ++ [m]

theorem forgetEmptyElse_ne_nil {ms : List Mark} (h : ms ≠ []) : forgetEmptyElse ms ≠ [] := by
  induction ms with
  | nil => exact absurd rfl h
  | cons m ms ih =>
    unfold forgetEmptyElse
    split
    · rename_i hempty
      refine ih fun hnil => ?_
      rw [hnil] at hempty
      cases hempty.2
    · exact List.cons_ne_nil _ _

theorem add_cons {k m : Mark} {ms : List Mark} (h : ms ≠ []) :
    add (k :: ms) m = k :: add ms m := by
  obtain ⟨m', ms, rfl⟩ := List.exists_cons_of_ne_nil h
  unfold add
  rw [List.getLast?_cons_cons]
  split
  · rfl
  · rfl

theorem forgetEmptyElse_concat (ms : List Mark) (m : Mark) :
    forgetEmptyElse (ms ++ [m]) = add (forgetEmptyElse ms) m := by
  induction ms with
  | nil => simp [forgetEmptyElse, add]
  | cons k ms ih =>
    cases ms with
    | nil =>
      by_cases h : k = otherwise ∧ m = closing .ifBlock
      · simp [forgetEmptyElse, add, h, otherwise, closing]
      · simp [forgetEmptyElse, add, h, and_comm]
    | cons k' ms =>
      have hne := forgetEmptyElse_ne_nil (List.cons_ne_nil k' ms)
      rw [List.cons_append, forgetEmptyElse, forgetEmptyElse.eq_2 k, ih, List.cons_append,
        List.head?_cons, List.head?_cons]
      split
      · rfl
      · exact (add_cons hne).symm

theorem add_of_ne {ms : List Mark} {m : Mark} (h : m ≠ closing .ifBlock) :
    add ms m = ms ++ [m] := if_neg fun hm => h hm.1

theorem foldl_add (before ms : List Mark) :
    ms.foldl add (forgetEmptyElse before) = forgetEmptyElse (before ++ ms) := by
  induction ms generalizing before with
  | nil => rw [List.append_nil, List.foldl_nil]
  | cons m ms ih =>
    rw [List.foldl_cons, ← forgetEmptyElse_concat, ih, List.append_assoc, List.singleton_append]

theorem add_append {ms more : List Mark} {m : Mark} (h : more ≠ []) :
    add (ms ++ more) m = ms ++ add more m := by
  induction ms with
  | nil => rfl
  | cons k ms ih => rw [List.cons_append, add_cons (by simp [h]), ih, List.cons_append]

end Mark

namespace Node

open Mark (add)

theorem marksOf_append (ns ns' : List Node) : marksOf (ns ++ ns') = marksOf ns ++ marksOf ns' := by
  induction ns with
  | nil => rfl
  | cons n ns ih => simp [marksOf, ih]

theorem marksOfOthers_append (os os' : List (Code × List Node)) :
    marksOfOthers (os ++ os') = marksOfOthers os ++ marksOfOthers os' := by
  induction os with
  | nil => rfl
  | cons o os ih => simp [marksOfOthers, ih]

theorem marks_ne_nil (n : Node) : n.marks ≠ [] := by cases n <;> simp [marks]

theorem marks_getLast? (n : Node) : n.marks.getLast? ≠ some .otherwise := by
  cases n <;> simp [marks, Mark.otherwise, Mark.closing, Mark.opening, List.getLast?_cons]

theorem marks_ne_closing (n : Node) {b : Block} : n.marks ≠ [.closing b] := by
  cases n <;> simp [marks, Mark.opening, Mark.closing]

theorem marksOf_getLast? (ns : List Node) : (marksOf ns).getLast? ≠ some .otherwise := by
  induction ns with
  | nil => simp [marksOf]
  | cons n ns ih =>
    rw [marksOf, List.getLast?_append]
    cases hlast : (marksOf ns).getLast? with
    | none => simpa using n.marks_getLast?
    | some m => rwa [hlast] at ih

/-- Nodes in front of a mark keep it from being taken for the end of an empty branch. -/
theorem add_marksOf {ms : List Mark} {ns : List Node} {m : Mark}
    (h : ms.getLast? ≠ some .otherwise ∨ ns ≠ []) :
    add (ms ++ marksOf ns) m = ms ++ marksOf ns ++ [m] := by
  refine if_neg fun hm => ?_
  have hlast := hm.2
  rw [List.getLast?_append] at hlast
  cases hns : (marksOf ns).getLast? with
  | none =>
    rw [hns, Option.none_or] at hlast
    refine h.elim (· hlast) fun hne => ?_
    obtain ⟨n, ns, rfl⟩ := List.exists_cons_of_ne_nil hne
    rw [List.getLast?_eq_none_iff, marksOf] at hns
    exact n.marks_ne_nil (List.append_eq_nil_iff.mp hns).1
  | some m' =>
    rw [hns, Option.some_or] at hlast
    exact marksOf_getLast? ns (hns.trans hlast)

end Node

namespace Tree

open Node (marksOf marksOfOthers)
open Grammar (Stage Moves Runs)
open Mark (add)

def Opening.stage : Opening → Stage
  | .sectionOf _ => .single .sectionBlock
  | .firstBranch _ | .laterBranch .. => .branch
  | .lastBranch .. => .last
  | .loopOver k _ _ => .single k.block
  | .loopWhile _ => .single .whileBlock

theorem Opening.stage_block (o : Opening) : o.stage.block = o.block := by cases o <;> rfl

/-- What an open block reads as up to its current body. -/
def Opening.marks (p : Position) : Opening → List Mark
  | .sectionOf _ => [.opening .sectionBlock p]
  | .firstBranch _ => [.opening .ifBlock p]
  | .laterBranch _ body others current =>
    .opening .ifBlock p :: (marksOf body ++ marksOfOthers others ++ [.elseIf current.position])
  | .lastBranch _ body others =>
    .opening .ifBlock p :: (marksOf body ++ marksOfOthers others ++ [.otherwise])
  | .loopOver k _ _ => [.opening k.block p]
  | .loopWhile _ => [.opening .whileBlock p]

def Frame.marks (f : Frame) : List Mark := f.opening.marks f.position ++ marksOf f.done.reverse

theorem Opening.marks_ne_nil (o : Opening) (p : Position) : o.marks p ≠ [] := by
  cases o <;> simp [marks]

theorem Frame.marks_ne_nil (f : Frame) : f.marks ≠ [] := by
  simp [marks, f.opening.marks_ne_nil]

namespace Reading

variable {r r' : Reading} {t : Token}

def stages (r : Reading) : List Stage := r.frames.map (·.opening.stage)

/-- What has been read, from the outermost open block to the innermost. -/
def marks (r : Reading) : List Mark :=
  marksOf (nodesOf r.items.reverse) ++ r.frames.reverse.flatMap Frame.marks

theorem marks_of_frames {f : Frame} {fs : List Frame} (hr : r.frames = f :: fs) :
    r.marks = { r with frames := fs }.marks ++ f.marks := by
  simp [marks, hr]

theorem marks_push (n : Node) : (r.push n).marks = r.marks ++ n.marks := by
  unfold push
  split
  · rename_i hr
    simp [marks, hr, nodesOf, Node.marksOf_append, marksOf]
  · rename_i f fs hr
    rw [marks_of_frames hr, marks_of_frames rfl]
    simp [Frame.marks, Node.marksOf_append, marksOf]

theorem stages_push (n : Node) : (r.push n).stages = r.stages := by
  unfold push
  split
  · rfl
  · rename_i f fs hr
    simp [stages, hr]

/-- The node a block is closed to reads as the block did, with its closer. -/
theorem marks_close {f : Frame} {fs : List Frame} (hr : r.frames = f :: fs)
    (hf : f.opening.block ≠ .sectionBlock) :
    (r.close f fs).marks = add r.marks (.closing f.opening.block) := by
  rw [marks_of_frames hr, Mark.add_append f.marks_ne_nil]
  obtain ⟨p, o, done⟩ := f
  have hadd {b : Block} (h : b ≠ .ifBlock ∨ (o.marks p).getLast? ≠ some .otherwise ∨
      done.reverse ≠ []) : add (Frame.marks ⟨p, o, done⟩) (.closing b) =
        o.marks p ++ marksOf done.reverse ++ [.closing b] := by
    rcases h with hb | h
    · exact Mark.add_of_ne fun hm => hb (by simpa [Mark.closing] using hm)
    · exact Node.add_marksOf h
  cases o with
  | sectionOf name => exact absurd rfl hf
  | firstBranch test =>
    rw [Opening.block, hadd (.inr (.inl (by simp [Opening.marks, Mark.opening, Mark.otherwise])))]
    simp [close, marks_push, Node.marks, Opening.marks, Node.marksOfOthers, Node.marksOfLast]
  | laterBranch test first others current =>
    have hlast : (Opening.marks p (.laterBranch test first others current)).getLast? ≠
        some .otherwise := by
      simp [Opening.marks, Mark.elseIf, Mark.otherwise, List.getLast?_cons]
    rw [Opening.block, hadd (.inr (.inl hlast))]
    simp [close, marks_push, Node.marks, Opening.marks, Node.marksOfOthers_append,
      Node.marksOfOthers, Node.marksOfOther, Node.marksOfLast]
  | lastBranch test first others =>
    rw [Opening.block]
    cases hdone : done.reverse with
    | nil =>
      -- the branch is empty, so its mark is taken back
      have hempty : Frame.marks ⟨p, .lastBranch test first others, done⟩ =
          .opening .ifBlock p :: (marksOf first ++ marksOfOthers others ++ [.otherwise]) := by
        simp [Frame.marks, hdone, Opening.marks, marksOf]
      rw [hempty]
      simp [close, marks_push, hdone, Node.marks, Node.marksOfLast, add, List.getLast?_cons,
        List.dropLast_cons_of_ne_nil]
    | cons n ns =>
      rw [hadd (.inr (.inr (by simp [hdone])))]
      simp [close, marks_push, hdone, Node.marks, Opening.marks, Node.marksOfLast, marksOf]
  | loopOver k target source =>
    have hk : k.block ≠ .ifBlock := by cases k <;> decide
    rw [Opening.block, hadd (.inl hk)]
    simp [close, marks_push, Node.marks, Opening.marks]
  | loopWhile test =>
    rw [Opening.block, hadd (.inl (by decide))]
    simp [close, marks_push, Node.marks, Opening.marks]

theorem stages_close {f : Frame} {fs : List Frame} :
    (r.close f fs).stages = fs.map (·.opening.stage) := by
  unfold close
  cases f.opening with
  | sectionOf name => rfl
  | firstBranch test => exact stages_push _
  | laterBranch test first others current => exact stages_push _
  | lastBranch test first others => exact stages_push _
  | loopOver k target source => exact stages_push _
  | loopWhile test => exact stages_push _

inductive Takes (r : Reading) (t : Token) : Reading → Prop
  | leaf {m : Mark} {n : Node} (ht : t.IsLeaf) (hm : t.mark? = some m) (hn : n.marks = [m]) :
      Takes r t (r.push n)
  | enter {b : Block} {o : Opening} (hb : b ≠ .sectionBlock) (ht : t.Is (.opening b))
      (ho : o.stage = .first b) (hmarks : o.marks t.position = [.opening b t.position]) :
      Takes r t (r.enter t.position o)
  | branch {f : Frame} {fs : List Frame} {o : Opening} (hr : r.frames = f :: fs)
      (ht : t.Is .elseIf) (hf : f.opening.stage = .branch) (ho : o.stage = .branch)
      (hmarks : o.marks f.position = f.marks ++ [.elseIf t.position]) :
      Takes r t { r with frames := ⟨f.position, o, []⟩ :: fs }
  | last {f : Frame} {fs : List Frame} {o : Opening} (hr : r.frames = f :: fs)
      (ht : t.Is .otherwise) (hf : f.opening.stage = .branch) (ho : o.stage = .last)
      (hmarks : o.marks f.position = f.marks ++ [.otherwise]) :
      Takes r t { r with frames := ⟨f.position, o, []⟩ :: fs }
  | close {f : Frame} {fs : List Frame} (hr : r.frames = f :: fs)
      (ht : t.Is (.closing f.opening.block)) : Takes r t (r.close f fs)

theorem expression_ok {w : Written} {code : Code} (h : w.expression = .ok code) :
    code.position = w.position ∧ code.text = w.arguments.stripBlanks := by
  unfold Written.expression Written.expressionOf at h
  split at h
  · cases h
  · split at h
    · cases h
    · obtain ⟨_, _, h⟩ := bind_ok h
      cases h
      exact ⟨rfl, rfl⟩

/-- The branches of a conditional read as it did, up to the branch that comes. -/
theorem branches_marks {f : Frame} {test : Code} {first : List Node}
    {others : List (Code × List Node)} (h : f.Branches test first others) :
    f.opening.stage = .branch ∧
      .opening .ifBlock f.position :: (marksOf first ++ marksOfOthers others) = f.marks := by
  cases h with
  | first hf => simp [Frame.marks, hf, Opening.stage, Opening.marks, marksOfOthers]
  | later hf =>
    simp [Frame.marks, hf, Opening.stage, Opening.marks, Node.marksOfOthers_append,
      marksOfOthers, Node.marksOfOther]

theorem leaf_takes {n : Node} (hn : t.MakesLeaf n) : Takes r t (r.push n) := by
  cases hn with
  | data hk => exact .leaf (.inl ⟨_, .inl hk⟩) (by rw [Token.mark?, hk]) rfl
  | output hk hcode =>
    refine .leaf (.inl ⟨_, .inr (.inl hk)⟩) (by rw [Token.mark?, hk]) ?_
    rw [Node.marks, (expression_ok hcode).2]
  | rawOutput hk hcode =>
    refine .leaf (.inl ⟨_, .inr (.inr hk)⟩) (by rw [Token.mark?, hk]) ?_
    rw [Node.marks, (expression_ok hcode).2]
  | yielding hk hplace => exact .leaf (.inr (.inl ⟨_, hk⟩)) (by rw [Token.mark?, hk]) rfl
  | including hk => exact .leaf (.inr (.inr ⟨_, hk⟩)) (by rw [Token.mark?, hk]) rfl

theorem opening_takes (ht : t.IsSound) {o : Opening} (ho : t.Opens o) :
    Takes r t (r.enter t.position o) := by
  cases ho with
  | conditional hk => exact .enter (by decide) ⟨_, hk⟩ rfl rfl
  | @loopOver _ k _ _ hk =>
    have hb : k.block ≠ .sectionBlock := by cases k <;> decide
    exact .enter hb ⟨_, hk⟩ (by cases k <;> rfl) rfl
  | loopWhile hk => exact .enter (by decide) ⟨_, hk⟩ rfl rfl
  | «section» hk =>
    unfold Token.IsSound at ht
    rw [hk] at ht
    exact ht.elim

theorem does_takes (ht : t.IsSound) (h : r.Does t r') : Takes r t r' := by
  cases h with
  | push hn => exact leaf_takes hn
  | enter ho hinner => exact opening_takes ht ho
  | branch hr hf hk hnext =>
    obtain ⟨hstage, hmarks⟩ := branches_marks hf
    refine .branch hr ⟨_, hk⟩ hstage rfl ?_
    rw [Opening.marks, (expression_ok hnext).1, ← hmarks]
    rfl
  | lastBranch hr hf hk =>
    obtain ⟨hstage, hmarks⟩ := branches_marks hf
    refine .last hr ⟨_, hk⟩ hstage rfl ?_
    rw [Opening.marks, ← hmarks]
    rfl
  | close hr hk => exact .close hr ⟨_, hk⟩
  | inlineSection hk hinner =>
    unfold Token.IsSound at ht
    rw [hk] at ht
    exact ht.elim
  | layout hk hinner hlayout =>
    unfold Token.IsSound at ht
    rw [hk] at ht
    exact ht.elim
  | finish hk hr =>
    unfold Token.IsSound at ht
    rw [hk] at ht
    exact ht.elim

theorem frames_of_stages {stage : Stage} {stages : List Stage} (h : r.stages = stage :: stages) :
    ∃ f fs, r.frames = f :: fs ∧ f.opening.stage = stage ∧
      fs.map (·.opening.stage) = stages := by
  obtain ⟨f, fs, hr, hf, hfs⟩ := List.map_eq_cons_iff.mp h
  exact ⟨f, fs, hr, hf, hfs⟩

theorem leaf_read (ht : t.IsSound) (hleaf : t.IsLeaf) :
    ∃ r', r.step t = .ok r' ∧ r'.stages = r.stages := by
  unfold Token.IsSound at ht
  unfold step
  rcases hleaf with ⟨text, hkind | hkind | hkind⟩ | ⟨arguments, hkind⟩ | ⟨arguments, hkind⟩
  · rw [hkind]
    exact ⟨_, rfl, stages_push _⟩
  · rw [hkind] at ht ⊢
    obtain ⟨code, hcode⟩ := ht
    exact ⟨_, ok_bind hcode, stages_push _⟩
  · rw [hkind] at ht ⊢
    obtain ⟨code, hcode⟩ := ht
    exact ⟨_, ok_bind hcode, stages_push _⟩
  · rw [hkind] at ht ⊢
    obtain ⟨place, hplace⟩ := ht
    exact ⟨_, ok_bind hplace, stages_push _⟩
  · rw [hkind] at ht ⊢
    obtain ⟨name, hname⟩ := ht
    obtain ⟨given, hgiven, hname⟩ := bind_ok hname
    exact ⟨_, (ok_bind hgiven).trans (ok_bind hname), stages_push _⟩

theorem opening_read {b : Block} (ht : t.IsSound) (hb : b ≠ .sectionBlock)
    (hk : t.Is (.opening b)) : ∃ r', r.step t = .ok r' ∧ r'.stages = .first b :: r.stages := by
  obtain ⟨arguments, hkind⟩ := hk
  unfold Token.IsSound at ht
  unfold step
  rw [hkind] at ht ⊢
  cases b with
  | sectionBlock => exact absurd rfl hb
  | ifBlock =>
    obtain ⟨test, htest⟩ := ht
    exact ⟨_, ok_bind htest, rfl⟩
  | whileBlock =>
    obtain ⟨test, htest⟩ := ht
    exact ⟨_, ok_bind htest, rfl⟩
  | foreachBlock =>
    obtain ⟨header, hheader⟩ := ht
    exact ⟨_, ok_bind hheader, rfl⟩
  | forBlock =>
    obtain ⟨header, hheader⟩ := ht
    exact ⟨_, ok_bind hheader, rfl⟩

/-- Both branches of a conditional that are not its last may go on to another. -/
theorem branch_read {stages : List Stage} (hr : r.stages = .branch :: stages) :
    (t.IsSound → t.Is .elseIf → ∃ r', r.step t = .ok r' ∧ r'.stages = .branch :: stages) ∧
      (t.Is .otherwise → ∃ r', r.step t = .ok r' ∧ r'.stages = .last :: stages) := by
  obtain ⟨f, fs, hframes, hf, rfl⟩ := frames_of_stages hr
  unfold step
  constructor
  · rintro ht ⟨arguments, hkind⟩
    unfold Token.IsSound at ht
    rw [hkind] at ht ⊢
    obtain ⟨next, hnext⟩ := ht
    simp only [directive, branch, hframes]
    cases hopening : f.opening <;> rw [hopening] at hf <;> cases hf
    · refine ⟨_, ok_bind hnext, ?_⟩
      rfl
    · refine ⟨_, ok_bind hnext, ?_⟩
      rfl
  · rintro ⟨arguments, hkind⟩
    rw [hkind]
    simp only [directive, lastBranch, hframes]
    cases hopening : f.opening <;> rw [hopening] at hf <;> cases hf
    · refine ⟨_, rfl, ?_⟩
      rfl
    · refine ⟨_, rfl, ?_⟩
      rfl

theorem step_of_moves (ht : t.IsSound) {stages : List Stage} (h : Moves r.stages t stages) :
    ∃ r', r.step t = .ok r' ∧ r'.stages = stages := by
  generalize hr : r.stages = before at h
  cases h with
  | leaf hleaf => exact hr ▸ leaf_read ht hleaf
  | enter hb hk => exact hr ▸ opening_read ht hb hk
  | branch hk => exact (branch_read hr).1 ht hk
  | last hk => exact (branch_read hr).2 hk
  | close hk =>
    obtain ⟨f, fs, hframes, rfl, rfl⟩ := frames_of_stages hr
    obtain ⟨arguments, hkind⟩ := hk
    refine ⟨r.close f fs, ?_, stages_close⟩
    rw [step, hkind]
    simp only [directive, closing]
    rw [hframes]
    exact if_pos f.opening.stage_block.symm

/-- Nothing of a page that extends a layout has been read. -/
structure IsPlain (r : Reading) : Prop where
  layout : r.layout = none
  items : ∀ s, .section s ∉ r.items
  frames : ∀ f ∈ r.frames, f.opening.block ≠ .sectionBlock

theorem Takes.moves (h : Takes r t r') : Moves r.stages t r'.stages := by
  cases h with
  | leaf ht hm hn =>
    rw [stages_push]
    exact .leaf ht
  | @enter b o hb ht ho hmarks =>
    have hstages : (r.enter t.position o).stages = .first b :: r.stages := by
      simp [stages, Reading.enter, ho]
    rw [hstages]
    exact .enter hb ht
  | branch hr ht hf ho hmarks =>
    simp only [stages, hr, List.map_cons, hf, ho]
    exact .branch ht
  | last hr ht hf ho hmarks =>
    simp only [stages, hr, List.map_cons, hf, ho]
    exact .last ht
  | @close f fs hr ht =>
    rw [stages_close]
    simp only [stages, hr, List.map_cons]
    exact .close (f.opening.stage_block ▸ ht)

theorem IsPlain.push (h : r.IsPlain) (n : Node) : (r.push n).IsPlain := by
  obtain ⟨hlayout, hitems, hframes⟩ := h
  unfold Reading.push
  split
  · exact ⟨hlayout, fun s hs => hitems s (by simpa using hs), hframes⟩
  · rename_i f fs hr
    rw [hr] at hframes
    exact ⟨hlayout, hitems, by simpa using hframes⟩

theorem IsPlain.withFrames {fs : List Frame} (h : r.IsPlain)
    (hfs : ∀ f ∈ fs, f.opening.block ≠ .sectionBlock) : { r with frames := fs }.IsPlain :=
  ⟨h.layout, h.items, hfs⟩

theorem IsPlain.close {f : Frame} {fs : List Frame} (h : r.IsPlain) (hr : r.frames = f :: fs) :
    (r.close f fs).IsPlain := by
  obtain ⟨hf, hfs⟩ := List.forall_mem_cons.mp (hr ▸ h.frames)
  have hrest := h.withFrames hfs
  unfold Reading.close
  cases hopening : f.opening with
  | sectionOf name => exact absurd (by rw [hopening]; rfl) hf
  | firstBranch test => exact hrest.push _
  | laterBranch test first others current => exact hrest.push _
  | lastBranch test first others => exact hrest.push _
  | loopOver k target source => exact hrest.push _
  | loopWhile test => exact hrest.push _

theorem Takes.isPlain (htakes : Takes r t r') (h : r.IsPlain) : r'.IsPlain := by
  cases htakes with
  | leaf ht hm hn => exact h.push _
  | @enter b o hb ht ho hmarks =>
    refine h.withFrames (List.forall_mem_cons.mpr ⟨?_, h.frames⟩)
    rw [← o.stage_block, ho]
    cases b <;> exact hb
  | branch hr ht hf ho hmarks =>
    obtain ⟨_, hfs⟩ := List.forall_mem_cons.mp (hr ▸ h.frames)
    refine h.withFrames (List.forall_mem_cons.mpr ⟨?_, hfs⟩)
    rw [← Opening.stage_block, ho]
    nofun
  | last hr ht hf ho hmarks =>
    obtain ⟨_, hfs⟩ := List.forall_mem_cons.mp (hr ▸ h.frames)
    refine h.withFrames (List.forall_mem_cons.mpr ⟨?_, hfs⟩)
    rw [← Opening.stage_block, ho]
    nofun
  | close hr ht => exact h.close hr

theorem Takes.marks (htakes : Takes r t r') (h : r.IsPlain) :
    ∃ m, t.mark? = some m ∧ r'.marks = add r.marks m := by
  cases htakes with
  | @leaf m n ht hm hn =>
    refine ⟨m, hm, ?_⟩
    have hne : m ≠ .closing .ifBlock := by
      rintro rfl
      exact n.marks_ne_closing hn
    rw [marks_push, hn, Mark.add_of_ne hne]
  | @enter b o hb ht ho hmarks =>
    obtain ⟨arguments, hkind⟩ := ht
    refine ⟨.opening b t.position, by rw [Token.mark?, hkind]; rfl, ?_⟩
    have hne : Mark.opening b t.position ≠ .closing .ifBlock := by
      simp [Mark.opening, Mark.closing]
    rw [Mark.add_of_ne hne]
    simp [Reading.marks, Reading.enter, Frame.marks, hmarks, marksOf]
  | @branch f fs o hr ht hf ho hmarks =>
    obtain ⟨arguments, hkind⟩ := ht
    refine ⟨.elseIf t.position, by rw [Token.mark?, hkind]; rfl, ?_⟩
    have hne : Mark.elseIf t.position ≠ .closing .ifBlock := by
      simp [Mark.elseIf, Mark.closing]
    rw [Mark.add_of_ne hne, marks_of_frames hr, marks_of_frames rfl]
    simp [Frame.marks, hmarks, marksOf]
  | @last f fs o hr ht hf ho hmarks =>
    obtain ⟨arguments, hkind⟩ := ht
    refine ⟨.otherwise, by rw [Token.mark?, hkind], ?_⟩
    have hne : Mark.otherwise ≠ .closing .ifBlock := by decide
    rw [Mark.add_of_ne hne, marks_of_frames hr, marks_of_frames rfl]
    simp [Frame.marks, hmarks, marksOf]
  | @close f fs hr ht =>
    obtain ⟨hf, -⟩ := List.forall_mem_cons.mp (hr ▸ h.frames :
      ∀ g ∈ f :: fs, g.opening.block ≠ .sectionBlock)
    obtain ⟨arguments, hkind⟩ := ht
    exact ⟨.closing f.opening.block, by rw [Token.mark?, hkind], marks_close hr hf⟩

/-- What a run over sound tokens does to the open blocks and to what has been read. -/
theorem run_takes {ts : List Token} (hsound : ∀ t ∈ ts, t.IsSound) (hr : r.IsPlain)
    (h : ts.foldlM step r = .ok r') :
    Runs r.stages ts r'.stages ∧ r'.IsPlain ∧
      r'.marks = (ts.filterMap Token.mark?).foldl add r.marks := by
  induction ts generalizing r with
  | nil =>
    cases h
    exact ⟨.nil _, hr, rfl⟩
  | cons t ts ih =>
    obtain ⟨ht, hsound⟩ := List.forall_mem_cons.mp hsound
    rw [List.foldlM_cons] at h
    obtain ⟨next, hstep, hrest⟩ := bind_ok h
    have htakes := does_takes ht (does_of_step hstep)
    obtain ⟨m, hm, hmarks⟩ := htakes.marks hr
    obtain ⟨hruns, hplain, hread⟩ := ih hsound (htakes.isPlain hr) hrest
    refine ⟨.cons htakes.moves hruns, hplain, ?_⟩
    rw [hread, hmarks, List.filterMap_cons_some hm, List.foldl_cons]

theorem run_of_runs {ts : List Token} (hsound : ∀ t ∈ ts, t.IsSound) {stages : List Stage}
    (h : Runs r.stages ts stages) : ∃ r', ts.foldlM step r = .ok r' ∧ r'.stages = stages := by
  generalize hr : r.stages = before at h
  induction h generalizing r with
  | nil => exact ⟨r, rfl, hr⟩
  | @cons _ _ _ t ts hmoves hrest ih =>
    obtain ⟨ht, hsound⟩ := List.forall_mem_cons.mp hsound
    obtain ⟨next, hstep, hnext⟩ := step_of_moves ht (hr ▸ hmoves)
    obtain ⟨r', hrun, hr'⟩ := ih hsound hnext
    exact ⟨r', by rw [List.foldlM_cons, ok_bind hstep, hrun], hr'⟩

theorem stages_eq_nil : r.stages = [] ↔ r.frames = [] := List.map_eq_nil_iff

theorem IsPlain.empty : empty.IsPlain := ⟨rfl, nofun, nofun⟩

theorem IsPlain.assemble (h : r.IsPlain) :
    assemble r.layout r.items.reverse = .ok (.page (nodesOf r.items.reverse), []) := by
  have hfirst : firstSection? r.items.reverse = none := by
    refine List.findSome?_eq_none_iff.mpr fun item hitem => ?_
    rcases item with n | s
    · rfl
    · exact absurd (List.mem_reverse.mp hitem) (h.items s)
  rw [h.layout, Tree.assemble, hfirst]

theorem finish_ok {p : Position} : r.step ⟨.finish, p⟩ = .ok r' ↔ r.frames = [] ∧ r = r' := by
  unfold step finish
  cases hframes : r.frames with
  | nil => simp
  | cons f fs => simp

end Reading

theorem ofTokens_ok {content : List Token} {stop : Position} {read : Tree × List Position} :
    ofTokens (content ++ [⟨.finish, stop⟩]) = .ok read ↔
      ∃ r, content.foldlM Reading.step .empty = .ok r ∧ r.frames = [] ∧
        assemble r.layout r.items.reverse = .ok read := by
  unfold ofTokens
  rw [List.foldlM_append]
  constructor
  · intro h
    obtain ⟨r', hr', hassemble⟩ := Reading.bind_ok h
    obtain ⟨r, hr, hfinish⟩ := Reading.bind_ok hr'
    rw [List.foldlM_cons] at hfinish
    obtain ⟨_, hfinish, hnil⟩ := Reading.bind_ok hfinish
    cases hnil
    obtain ⟨hframes, rfl⟩ := Reading.finish_ok.mp hfinish
    exact ⟨r, hr, hframes, hassemble⟩
  · rintro ⟨r, hr, hframes, hassemble⟩
    have hfinish : [⟨.finish, stop⟩].foldlM Reading.step r = .ok r := by
      rw [List.foldlM_cons, Reading.ok_bind (Reading.finish_ok.mpr ⟨hframes, rfl⟩)]
      rfl
    rw [Reading.ok_bind hr, Reading.ok_bind hfinish, hassemble]

/-- Sound tokens make a page if and only if they are a body of the block grammar. The page reads
as the tokens do, in the same order and from the same positions, but for each `@else` with an
empty branch. -/
theorem page_read_iff_body {content : List Token} (hsound : ∀ t ∈ content, t.IsSound)
    (stop : Position) :
    ((∃ read, ofTokens (content ++ [⟨.finish, stop⟩]) = .ok read) ↔ Grammar.Body content) ∧
      ∀ tree orphans, ofTokens (content ++ [⟨.finish, stop⟩]) = .ok (tree, orphans) →
        orphans = [] ∧ ∃ nodes, tree = .page nodes ∧
          marksOf nodes = Mark.forgetEmptyElse (content.filterMap Token.mark?) := by
  have hread {r : Reading} (h : content.foldlM Reading.step .empty = .ok r) :=
    Reading.run_takes hsound .empty h
  constructor
  · rw [← Grammar.runs_iff_body]
    constructor
    · rintro ⟨read, h⟩
      obtain ⟨r, hr, hframes, -⟩ := ofTokens_ok.mp h
      have hruns := (hread hr).1
      rwa [Reading.stages_eq_nil.mpr hframes] at hruns
    · intro h
      obtain ⟨r, hr, hstages⟩ := Reading.run_of_runs hsound (r := .empty) h
      exact ⟨_, ofTokens_ok.mpr ⟨r, hr, Reading.stages_eq_nil.mp hstages,
        (hread hr).2.1.assemble⟩⟩
  · intro tree orphans h
    obtain ⟨r, hr, hframes, hassemble⟩ := ofTokens_ok.mp h
    obtain ⟨-, hplain, hmarks⟩ := hread hr
    rw [hplain.assemble] at hassemble
    cases hassemble
    refine ⟨rfl, _, rfl, ?_⟩
    calc marksOf (nodesOf r.items.reverse)
      _ = r.marks := by simp [Reading.marks, hframes]
      _ = (content.filterMap Token.mark?).foldl Mark.add Reading.empty.marks := hmarks
      _ = Mark.forgetEmptyElse (content.filterMap Token.mark?) := Mark.foldl_add [] _

/-- A loop around a conditional whose last branch is empty. -/
def looped : List Token :=
  [⟨.directive (.opening .foreachBlock) (some "xs as x"), ⟨1, 0⟩⟩,
    ⟨.directive (.opening .ifBlock) (some "x"), ⟨1, 17⟩⟩, ⟨.data "a", ⟨1, 23⟩⟩,
    ⟨.directive .elseIf (some "y"), ⟨1, 24⟩⟩, ⟨.rawOutput " z ", ⟨1, 34⟩⟩,
    ⟨.directive .otherwise none, ⟨2, 0⟩⟩, ⟨.directive (.closing .ifBlock) none, ⟨2, 5⟩⟩,
    ⟨.directive .including (some "'p', z"), ⟨3, 0⟩⟩,
    ⟨.directive (.closing .foreachBlock) none, ⟨3, 16⟩⟩]

theorem looped_read_iff_body :
    (∀ t ∈ looped, t.IsSound) ∧
      ((∃ read, ofTokens (looped ++ [⟨.finish, ⟨3, 27⟩⟩]) = .ok read) ↔ Grammar.Body looped) ∧
      ∀ tree orphans, ofTokens (looped ++ [⟨.finish, ⟨3, 27⟩⟩]) = .ok (tree, orphans) →
        orphans = [] ∧ ∃ nodes, tree = .page nodes ∧
          marksOf nodes = Mark.forgetEmptyElse (looped.filterMap Token.mark?) := by
  have hsound : ∀ t ∈ looped, t.IsSound := by decide +kernel
  exact ⟨hsound, page_read_iff_body hsound _⟩

end Tree

end Stencil
