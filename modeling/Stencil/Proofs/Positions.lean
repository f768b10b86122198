import Stencil.Proofs.Moments
import Stencil.Proofs.Readback
import Stencil.Proofs.Spelling

/-!
# The lines of a tree

Every line that a template marks is the line of a token of its source, and those are counted from
one.
-/

namespace Stencil

namespace Node

theorem linesOf_eq (ns : List Node) : linesOf ns = ns.flatMap lines := by
  induction ns with
  | nil => rfl
  | cons n ns ih => rw [linesOf, ih, List.flatMap_cons]

theorem mem_linesOf_reverse {ns : List Node} {k : Nat} :
    k ∈ linesOf ns.reverse ↔ k ∈ linesOf ns := by
  simp [linesOf_eq]

theorem linesOfOthers_append (os os' : List (Code × List Node)) :
    linesOfOthers (os ++ os') = linesOfOthers os ++ linesOfOthers os' := by
  induction os with
  | nil => rfl
  | cons o os ih => simp [linesOfOthers, ih]

end Node

theorem Token.MakesLeaf.mem_lines {t : Token} {n : Node} (h : t.MakesLeaf n) {k : Nat}
    (hk : k ∈ n.lines) : k = t.position.line := by
  cases h with
  | data ht => cases hk
  | output ht hcode => exact List.mem_singleton.mp hk
  | rawOutput ht hcode => exact List.mem_singleton.mp hk
  | yielding ht hplace => exact List.mem_singleton.mp hk
  | including ht => exact List.mem_singleton.mp hk

namespace Tree

open Node (linesOf linesOfOthers mem_linesOf_reverse)

def Opening.lines : Opening → List Nat
  | .laterBranch _ body others current =>
    linesOf body ++ linesOfOthers others ++ [current.position.line]
  | .lastBranch _ body others => linesOf body ++ linesOfOthers others
  | _ => []

def Frame.lines (f : Frame) : List Nat := f.position.line :: (f.opening.lines ++ linesOf f.done)

theorem Opening.lines_of_opens {t : Token} {o : Opening} (h : t.Opens o) : o.lines = [] := by
  cases h <;> rfl

theorem Frame.Branches.mem_lines {f : Frame} {test : Code} {first : List Node}
    {others : List (Code × List Node)} (h : f.Branches test first others) {k : Nat}
    (hk : k ∈ linesOf first ++ linesOfOthers others) : k ∈ f.lines := by
  cases h with
  | first hf =>
    simp only [linesOfOthers, List.append_nil, mem_linesOf_reverse] at hk
    exact List.mem_cons_of_mem _ (List.mem_append_right _ hk)
  | later hf =>
    simp only [Node.linesOfOthers_append, linesOfOthers, Node.linesOfOther, List.append_nil,
      List.mem_append, List.mem_cons, mem_linesOf_reverse] at hk
    simp only [Frame.lines, hf, Opening.lines, List.mem_cons, List.mem_append]
    grind

def Item.lines : Item → List Nat
  | .node n => n.lines
  | .section s => linesOf s.body

theorem Item.lines_eq (i : Item) : i.lines = linesOf i.nodes := by
  cases i with
  | node n => exact (List.append_nil _).symm
  | «section» s => rfl

namespace Reading

structure Marks (P : Nat → Prop) (r : Reading) : Prop where
  layout : ∀ l, r.layout = some l → P l.position.line
  frames : ∀ f ∈ r.frames, ∀ k ∈ f.lines, P k
  items : ∀ i ∈ r.items, ∀ k ∈ i.lines, P k

variable {P : Nat → Prop} {r r' : Reading} {t : Token}

namespace Marks

theorem addItem (h : r.Marks P) {i : Item} (hi : ∀ k ∈ i.lines, P k) :
    { r with items := i :: r.items }.Marks P :=
  ⟨h.layout, h.frames, List.forall_mem_cons.mpr ⟨hi, h.items⟩⟩

theorem withFrames (h : r.Marks P) {fs : List Frame} (hfs : ∀ f ∈ fs, ∀ k ∈ f.lines, P k) :
    { r with frames := fs }.Marks P := ⟨h.layout, hfs, h.items⟩

theorem push (h : r.Marks P) {n : Node} (hn : ∀ k ∈ n.lines, P k) : (r.push n).Marks P := by
  unfold Reading.push
  split
  · exact h.addItem hn
  · rename_i f fs hr
    obtain ⟨hf, hfs⟩ := List.forall_mem_cons.mp (hr ▸ h.frames)
    refine h.withFrames (List.forall_mem_cons.mpr ⟨fun k hk => ?_, hfs⟩)
    simp only [Frame.lines, linesOf, List.mem_cons, List.mem_append] at hk hf
    grind

theorem enter (h : r.Marks P) {p : Text.Position} {o : Opening} (hp : P p.line)
    (ho : o.lines = []) : (r.enter p o).Marks P := by
  refine h.withFrames (List.forall_mem_cons.mpr ⟨fun k hk => ?_, h.frames⟩)
  simp only [Frame.lines, ho, linesOf, List.append_nil, List.mem_singleton] at hk
  exact hk ▸ hp

/-- The node a block is closed to marks what the block did. -/
theorem close (h : r.Marks P) {f : Frame} {fs : List Frame} (hr : r.frames = f :: fs) :
    (r.close f fs).Marks P := by
  obtain ⟨hf, hfs⟩ := List.forall_mem_cons.mp (hr ▸ h.frames)
  have hrest := h.withFrames hfs
  have hown : f.position.line ∈ f.lines := List.mem_cons_self
  have hdone {k : Nat} (hk : k ∈ linesOf f.done.reverse) : k ∈ f.lines :=
    List.mem_cons_of_mem _ (List.mem_append_right _ (mem_linesOf_reverse.mp hk))
  have hbranches {test : Code} {first : List Node} {others : List (Code × List Node)}
      (hb : f.Branches test first others) {k : Nat}
      (hk : k ∈ (Node.conditional f.position test first others []).lines) : k ∈ f.lines := by
    rw [Node.lines, linesOf, List.append_nil] at hk
    rcases List.mem_cons.mp hk with rfl | hk
    · exact hown
    · exact hb.mem_lines hk
  unfold Reading.close
  cases hopening : f.opening with
  | sectionOf name => exact hrest.addItem fun k hk => hf k (hdone hk)
  | firstBranch test => exact hrest.push fun k hk => hf k (hbranches (.first hopening) hk)
  | laterBranch test first others current =>
    exact hrest.push fun k hk => hf k (hbranches (.later hopening) hk)
  | lastBranch test first others =>
    refine hrest.push fun k hk => hf k ?_
    rcases List.mem_cons.mp hk with rfl | hk
    · exact hown
    rcases List.mem_append.mp hk with hk | hk
    · rw [Frame.lines, hopening]
      exact List.mem_cons_of_mem _ (List.mem_append_left _ hk)
    · exact hdone hk
  | loopOver k target source =>
    refine hrest.push fun k hk => hf k ?_
    rcases List.mem_cons.mp hk with rfl | hk
    · exact hown
    · exact hdone hk
  | loopWhile test =>
    refine hrest.push fun k hk => hf k ?_
    rcases List.mem_cons.mp hk with rfl | hk
    · exact hown
    · exact hdone hk

/-- A conditional goes on to a branch that marks another line, or to its last branch. -/
theorem nextBranch (h : r.Marks P) {f : Frame} {fs : List Frame} (hr : r.frames = f :: fs)
    {o : Opening} (ho : ∀ k ∈ o.lines, k ∈ f.lines ∨ P k) :
    { r with frames := ⟨f.position, o, []⟩ :: fs }.Marks P := by
  obtain ⟨hf, hfs⟩ := List.forall_mem_cons.mp (hr ▸ h.frames)
  refine h.withFrames (List.forall_mem_cons.mpr ⟨fun k hk => ?_, hfs⟩)
  simp only [Frame.lines, linesOf, List.append_nil, List.mem_cons] at hk
  rcases hk with rfl | hk
  · exact hf _ List.mem_cons_self
  · exact (ho k hk).elim (hf k) id

theorem does (h : r.Marks P) (ht : t.kind ≠ .finish → P t.position.line) (hr' : r.Does t r') :
    r'.Marks P := by
  by_cases hfinish : t.kind = .finish
  · exact hr'.eq_of_finish hfinish ▸ h
  replace ht := ht hfinish
  cases hr' with
  | push hn => exact h.push fun k hk => hn.mem_lines hk ▸ ht
  | enter ho hinner => exact h.enter ht (Opening.lines_of_opens ho)
  | branch hr hf hk hnext =>
    refine h.nextBranch hr fun k hk => ?_
    rcases List.mem_append.mp hk with hk | hk
    · exact .inl (hf.mem_lines hk)
    · rw [List.mem_singleton.mp hk, (expression_ok hnext).1]
      exact .inr ht
  | lastBranch hr hf hk => exact h.nextBranch hr fun k hk => .inl (hf.mem_lines hk)
  | close hr hk => exact h.close hr
  | inlineSection hk hinner =>
    refine h.addItem fun k hk => ?_
    rw [List.mem_singleton.mp hk]
    exact ht
  | layout hk hinner hlayout =>
    refine ⟨fun l hl => ?_, h.frames, h.items⟩
    cases hl
    exact ht
  | finish hk hr => exact h

theorem foldlM {tokens : List Token} (ht : ∀ t ∈ tokens, t.kind ≠ .finish → P t.position.line)
    (h : r.Marks P) (hr' : tokens.foldlM Reading.step r = .ok r') : r'.Marks P :=
  foldlM_keeps (fun t hmem _ _ h hdoes => h.does (ht t hmem) hdoes) h hr'

end Marks

end Reading

/-- The lines of what is rendered of the top-level content are lines of the content. -/
theorem assemble_marks {P : Nat → Prop} {r : Reading} {tree : Tree} {orphans : List Text.Position}
    (h : r.Marks P) (htree : assemble r.layout r.items.reverse = .ok (tree, orphans)) :
    (∀ body ∈ tree.bodies, ∀ k ∈ linesOf body, P k) ∧
      ∀ p name own, tree = .extension p name own → P p.line := by
  have hitems {i : Item} (hi : i ∈ r.items.reverse) : ∀ k ∈ i.lines, P k :=
    h.items i (List.mem_reverse.mp hi)
  constructor
  · intro body hbody k hk
    rw [Node.linesOf_eq] at hk
    obtain ⟨n, hn, hk⟩ := List.mem_flatMap.mp hk
    obtain ⟨i, hi, hin⟩ := assemble_nodes htree hbody hn
    apply hitems hi k
    rw [Item.lines_eq, Node.linesOf_eq]
    exact List.mem_flatMap.mpr ⟨n, hin, hk⟩
  · rintro p name own rfl
    unfold assemble at htree
    split at htree
    · rename_i l hlayout
      cases htree
      exact h.layout l hlayout
    · split at htree
      · cases htree
      · cases htree

end Tree

/-- A template marks lines of its source only: those on which characters stand. -/
theorem Template.IsRead.marks {t : Template} (h : t.IsRead) {P : Nat → Prop}
    (hP : ∀ before c more, t.source.text.toList = before ++ c :: more →
      P (Text.Position.counted before).line) :
    (∀ body ∈ t.tree.bodies, ∀ k ∈ Node.linesOf body, P k) ∧
      ∀ p name own, t.tree = .extension p name own → P p.line := by
  obtain ⟨tokens, r, orphans, htokens, hrun, hassemble⟩ := h.reading
  obtain ⟨segments, hcovers, _, hspelled⟩ := Segment.spelled_of_tokens htokens
  have hpos : ∀ tok ∈ tokens, tok.kind ≠ .finish → P tok.position.line := by
    intro tok htok hkind
    obtain ⟨before, c, more, htext, hat⟩ := hspelled.position_denotes tok htok hkind
    rw [hat]
    exact hP before c more (hcovers.symm.trans htext)
  have hempty : Tree.Reading.empty.Marks P := ⟨nofun, nofun, nofun⟩
  exact Tree.assemble_marks (hempty.foldlM hpos hrun) hassemble

theorem Template.IsRead.lines_pos {t : Template} (h : t.IsRead) :
    (∀ body ∈ t.tree.bodies, ∀ k ∈ Node.linesOf body, 0 < k) ∧
      ∀ p name own, t.tree = .extension p name own → 0 < p.line :=
  h.marks fun _ _ _ _ => Nat.succ_pos _

end Stencil
