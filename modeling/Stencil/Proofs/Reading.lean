import Stencil.Proofs.Loading
import Stencil.Proofs.TokenSteps

/-!
# Where nodes come from

A template does work only at its leaves: literal text, interpolations, places and inclusions.
Each leaf of a tree was made by one token of the source, however deep in blocks it stands.
-/

namespace Stencil

namespace Node

mutual

def leaves : Node → List Node
  | .data p s => [.data p s]
  | .output p code escaped => [.output p code escaped]
  | .yielding p name default => [.yielding p name default]
  | .including p name given => [.including p name given]
  | .conditional _ _ body others otherwise =>
    leavesOf body ++ leavesOfOthers others ++ leavesOf otherwise
  | .loop _ _ _ _ body => leavesOf body
  | .whileLoop _ _ body => leavesOf body

def leavesOf : List Node → List Node
  | [] => []
  | n :: ns => leaves n ++ leavesOf ns

def leavesOfOthers : List (Code × List Node) → List Node
  | [] => []
  | o :: os => leavesOfOther o ++ leavesOfOthers os

def leavesOfOther : Code × List Node → List Node
  | (_, body) => leavesOf body

end

theorem leavesOf_eq (ns : List Node) : leavesOf ns = ns.flatMap leaves := by
  induction ns with
  | nil => rfl
  | cons n ns ih => rw [leavesOf, ih, List.flatMap_cons]

theorem mem_leavesOf_reverse {l : Node} {ns : List Node} :
    l ∈ leavesOf ns.reverse ↔ l ∈ leavesOf ns := by
  simp [leavesOf_eq]

theorem leavesOfOthers_append (os os' : List (Code × List Node)) :
    leavesOfOthers (os ++ os') = leavesOfOthers os ++ leavesOfOthers os' := by
  induction os with
  | nil => rfl
  | cons o os ih => simp [leavesOfOthers, ih]

end Node

namespace Token

def HasDefault (t : Token) (default : String) : Prop :=
  ∃ arguments name, t.kind = .directive .yielding arguments ∧
    Written.place ⟨t.position, some .yielding, arguments.getD ""⟩ = .ok (name, default)

/-- What a token must be to make a leaf. -/
def Makes (t : Token) : Node → Prop
  | .data _ s => t.kind = .data s
  | .output _ _ escaped => escaped = false → ∃ s, t.kind = .rawOutput s
  | .yielding _ _ default => t.HasDefault default
  | _ => True

theorem MakesLeaf.makes {t : Token} {n l : Node} (h : t.MakesLeaf n) (hl : l ∈ n.leaves) :
    t.Makes l := by
  cases h with
  | data hk =>
    rw [List.mem_singleton.mp hl]
    exact hk
  | output hk hcode =>
    rw [List.mem_singleton.mp hl]
    exact nofun
  | rawOutput hk hcode =>
    rw [List.mem_singleton.mp hl]
    exact fun _ => ⟨_, hk⟩
  | yielding hk hplace =>
    rw [List.mem_singleton.mp hl]
    exact ⟨_, _, hk, hplace⟩
  | including hk =>
    rw [List.mem_singleton.mp hl]
    exact trivial

end Token

namespace Tree

open Node (leaves leavesOf leavesOfOthers mem_leavesOf_reverse)

def Opening.leaves : Opening → List Node
  | .laterBranch _ body others _ | .lastBranch _ body others =>
    leavesOf body ++ leavesOfOthers others
  | _ => []

theorem Opening.leaves_of_opens {t : Token} {o : Opening} (h : t.Opens o) : o.leaves = [] := by
  cases h <;> rfl

def Frame.leaves (f : Frame) : List Node := f.opening.leaves ++ leavesOf f.done

/-- The branches of a conditional have the leaves that it has read. -/
theorem Frame.Branches.mem_leaves {f : Frame} {test : Code} {first : List Node}
    {others : List (Code × List Node)} (h : f.Branches test first others) {l : Node} :
    l ∈ leavesOf first ++ leavesOfOthers others ↔ l ∈ f.leaves := by
  cases h with
  | first hf =>
    simp only [Frame.leaves, hf, Opening.leaves, leavesOfOthers, List.append_nil,
      List.nil_append, mem_leavesOf_reverse]
  | later hf =>
    simp only [Frame.leaves, hf, Opening.leaves, Node.leavesOfOthers_append, leavesOfOthers,
      Node.leavesOfOther, List.append_nil, List.mem_append, mem_leavesOf_reverse]
    exact or_assoc.symm

def Item.leaves : Item → List Node
  | .node n => n.leaves
  | .section s => leavesOf s.body

namespace Reading

def leaves (r : Reading) : List Node := r.frames.flatMap Frame.leaves ++ r.items.flatMap Item.leaves

variable {r : Reading} {l : Node}

theorem mem_leaves_of_cons {f : Frame} {fs : List Frame} (hr : r.frames = f :: fs) :
    l ∈ r.leaves ↔ l ∈ f.leaves ∨ l ∈ { r with frames := fs }.leaves := by
  simp [leaves, hr]

theorem mem_leaves_item (i : Item) :
    l ∈ { r with items := i :: r.items }.leaves ↔ l ∈ i.leaves ∨ l ∈ r.leaves := by
  simp only [leaves, List.flatMap_cons, List.mem_append]
  exact or_left_comm

theorem mem_leaves_push {n : Node} : l ∈ (r.push n).leaves ↔ l ∈ n.leaves ∨ l ∈ r.leaves := by
  unfold push
  split
  · exact mem_leaves_item (.node n)
  · rename_i f fs hframes
    simp only [leaves, hframes, Frame.leaves, leavesOf, List.flatMap_cons, List.mem_append]
    grind

theorem mem_leaves_enter {p : Text.Position} {o : Opening} :
    l ∈ (r.enter p o).leaves ↔ l ∈ o.leaves ∨ l ∈ r.leaves := by
  simp [enter, leaves, Frame.leaves, leavesOf]

/-- Closing a block puts its leaves into one node of the block around it. -/
theorem mem_leaves_close {f : Frame} {fs : List Frame} (hr : r.frames = f :: fs)
    (hl : l ∈ (r.close f fs).leaves) : l ∈ r.leaves := by
  have hdone (h : l ∈ leavesOf f.done.reverse) : l ∈ f.leaves :=
    List.mem_append_right _ (mem_leavesOf_reverse.mp h)
  have hnil : leavesOf [] = [] := rfl
  rw [mem_leaves_of_cons hr]
  unfold close at hl
  cases hopening : f.opening with
  | sectionOf name =>
    simp only [hopening] at hl
    exact ((mem_leaves_item (r := { r with frames := fs }) (.section _)).mp hl).imp_left hdone
  | firstBranch test =>
    simp only [hopening, mem_leaves_push, Node.leaves, hnil, List.append_nil] at hl
    exact hl.imp_left (Frame.Branches.first hopening).mem_leaves.mp
  | laterBranch test body others current =>
    simp only [hopening, mem_leaves_push, Node.leaves, hnil, List.append_nil] at hl
    exact hl.imp_left (Frame.Branches.later hopening).mem_leaves.mp
  | lastBranch test body others =>
    simp only [hopening, mem_leaves_push, Node.leaves, List.mem_append] at hl
    refine hl.imp_left fun h => ?_
    simp only [Frame.leaves, hopening, Opening.leaves, List.mem_append]
    exact h.imp_right mem_leavesOf_reverse.mp
  | loopOver k target source =>
    simp only [hopening, mem_leaves_push, Node.leaves] at hl
    exact hl.imp_left hdone
  | loopWhile test =>
    simp only [hopening, mem_leaves_push, Node.leaves] at hl
    exact hl.imp_left hdone

def GrowsBy (r : Reading) (t : Token) (r' : Reading) : Prop :=
  ∀ l ∈ r'.leaves, l ∈ r.leaves ∨ t.Makes l

variable {t : Token}

theorem growsBy_push {n : Node} (hn : ∀ l ∈ n.leaves, t.Makes l) : r.GrowsBy t (r.push n) :=
  fun _ hl => (mem_leaves_push.mp hl).symm.imp_right (hn _)

theorem growsBy_enter {p : Text.Position} {o : Opening} (ho : o.leaves = []) :
    r.GrowsBy t (r.enter p o) := by
  intro l hl
  rw [mem_leaves_enter, ho] at hl
  exact .inl (hl.resolve_left (List.not_mem_nil))

theorem growsBy_branch {f : Frame} {fs : List Frame} {o : Opening} (hr : r.frames = f :: fs)
    (ho : ∀ {l}, l ∈ o.leaves → l ∈ f.leaves) :
    r.GrowsBy t { r with frames := ⟨f.position, o, []⟩ :: fs } := by
  intro l hl
  rw [mem_leaves_of_cons (r := { r with frames := ⟨f.position, o, []⟩ :: fs }) rfl, Frame.leaves,
    leavesOf, List.append_nil] at hl
  exact .inl ((mem_leaves_of_cons hr).mpr (hl.imp_left ho))

theorem Does.growsBy {r' : Reading} (h : r.Does t r') : r.GrowsBy t r' := by
  cases h with
  | push hn => exact growsBy_push fun _ => hn.makes
  | enter ho hinner => exact growsBy_enter (Opening.leaves_of_opens ho)
  | branch hr hf hk hnext => exact growsBy_branch hr hf.mem_leaves.mp
  | lastBranch hr hf hk => exact growsBy_branch hr hf.mem_leaves.mp
  | close hr hk => exact fun l hl => .inl (mem_leaves_close hr hl)
  | inlineSection hk hinner =>
    -- an inline section shows its value as an interpolation does, escaped
    intro l hl
    rcases (mem_leaves_item (.section _)).mp hl with hl | hl
    · rw [List.mem_singleton.mp hl]
      exact .inr nofun
    · exact .inl hl
  | layout hk hinner hlayout => exact fun l hl => .inl hl
  | finish hk hr => exact fun l hl => .inl hl

end Reading

theorem foldlM_step_leaves {tokens : List Token} {r r' : Reading}
    (h : tokens.foldlM Reading.step r = .ok r') :
    ∀ l ∈ r'.leaves, l ∈ r.leaves ∨ ∃ t ∈ tokens, t.Makes l := by
  refine Reading.foldlM_keeps (P := fun r' => ∀ l ∈ r'.leaves, l ∈ r.leaves ∨
    ∃ t ∈ tokens, t.Makes l) (fun t ht r₁ r₂ hr₁ hdoes l hl => ?_) (fun l hl => .inl hl) h
  rcases hdoes.growsBy l hl with hl | hmakes
  · exact hr₁ l hl
  · exact .inr ⟨t, ht, hmakes⟩

theorem mem_define {s s' : Section} {l : List Section} (h : s' ∈ define s l) :
    s' = s ∨ s' ∈ l := by
  induction l with
  | nil => exact .inl (List.mem_singleton.mp h)
  | cons t l ih =>
    unfold define at h
    split at h
    · rcases List.mem_cons.mp h with h | h
      · exact .inl h
      · exact .inr (List.mem_cons_of_mem t h)
    · rcases List.mem_cons.mp h with h | h
      · exact .inr (h ▸ List.mem_cons_self)
      · exact (ih h).imp_right (List.mem_cons_of_mem t)

theorem mem_foldl_defineItem {s : Section} (items : List Item) (l : List Section)
    (h : s ∈ items.foldl defineItem l) : s ∈ l ∨ .section s ∈ items := by
  induction items generalizing l with
  | nil => exact .inl h
  | cons item items ih =>
    rcases ih _ h with h | h
    · cases item with
      | node n => exact .inl h
      | «section» s' =>
        rcases mem_define h with rfl | h
        · exact .inr List.mem_cons_self
        · exact .inl h
    · exact .inr (List.mem_cons_of_mem item h)

def Item.nodes : Item → List Node
  | .node n => [n]
  | .section s => s.body

theorem Item.leaves_eq (i : Item) : i.leaves = leavesOf i.nodes := by
  cases i with
  | node n => exact (List.append_nil _).symm
  | «section» s => rfl

/-- What is rendered of the top-level content are its nodes and the bodies of its sections. -/
theorem assemble_nodes {layout : Option Layout} {items : List Item} {tree : Tree}
    {orphans : List Text.Position} (h : assemble layout items = .ok (tree, orphans))
    {body : List Node} (hbody : body ∈ tree.bodies) {n : Node} (hn : n ∈ body) :
    ∃ i ∈ items, n ∈ i.nodes := by
  unfold assemble at h
  split at h
  · cases h
    obtain ⟨s, hs, rfl⟩ := List.mem_map.mp hbody
    have hmem := (mem_foldl_defineItem items [] hs).resolve_left List.not_mem_nil
    exact ⟨_, hmem, hn⟩
  · split at h
    · cases h
    · cases h
      rw [List.mem_singleton.mp hbody] at hn
      obtain ⟨i, hi, hin⟩ := List.mem_filterMap.mp hn
      cases i with
      | node n' =>
        cases hin
        exact ⟨_, hi, List.mem_singleton_self _⟩
      | «section» s => cases hin

theorem assemble_bodies {layout : Option Layout} {items : List Item} {tree : Tree}
    {orphans : List Text.Position} (h : assemble layout items = .ok (tree, orphans))
    {body : List Node} (hbody : body ∈ tree.bodies) {l : Node} (hl : l ∈ leavesOf body) :
    ∃ i ∈ items, l ∈ i.leaves := by
  rw [Node.leavesOf_eq] at hl
  obtain ⟨n, hn, hl⟩ := List.mem_flatMap.mp hl
  obtain ⟨i, hi, hin⟩ := assemble_nodes h hbody hn
  refine ⟨i, hi, ?_⟩
  rw [Item.leaves_eq, Node.leavesOf_eq]
  exact List.mem_flatMap.mpr ⟨n, hin, hl⟩

end Tree

namespace Template

/-- Each leaf of what a template renders was made by a token of its source. -/
theorem IsRead.leaf_made {t : Template} (h : t.IsRead) {body : List Node}
    (hbody : body ∈ t.tree.bodies) {l : Node} (hl : l ∈ Node.leavesOf body) :
    ∃ tokens, t.source.tokens = .ok tokens ∧ ∃ tok ∈ tokens, tok.Makes l := by
  obtain ⟨tokens, r, orphans, htokens, hrun, hassemble⟩ := h.reading
  obtain ⟨i, hi, hl⟩ := Tree.assemble_bodies hassemble hbody hl
  have hleaf : l ∈ r.leaves :=
    List.mem_append_right _ (List.mem_flatMap.mpr ⟨i, List.mem_reverse.mp hi, hl⟩)
  refine ⟨tokens, htokens, (Tree.foldlM_step_leaves hrun l hleaf).resolve_left ?_⟩
  exact List.not_mem_nil

end Template

end Stencil
