import Mathlib.Data.List.Nodup
import Mathlib.Data.List.Perm.Subperm
import Stencil.Proofs.Occurrences
import Stencil.Proofs.Reading
import Stencil.Proofs.Spelling

/-!
# Loops have places of their own

The variables of a loop are told from those of other loops by its position. Every token of a
source stands at a position of its own, and reading a token adds at most one loop, at the position
of the token; so no two loops of a template that was read share a position, in particular no two
that are around the same expression.
-/

namespace Stencil

namespace Text.Position

theorem counted_append_ne (s : List Char) {t : List Char} (ht : t ≠ []) :
    counted (s ++ t) ≠ counted s := by
  intro h
  have hline : (s ++ t).count '\n' = s.count '\n' :=
    Nat.succ.inj (congrArg Position.line h)
  have hcolumn : ((s ++ t).reverse.takeWhile (· ≠ '\n')).length =
      (s.reverse.takeWhile (· ≠ '\n')).length := congrArg Position.column h
  have hfree : t.count '\n' = 0 := by
    rw [List.count_append] at hline
    omega
  have hall : ∀ c ∈ t.reverse, decide (c ≠ '\n') = true := by
    intro c hc
    refine decide_eq_true fun hnewline => ?_
    exact List.count_eq_zero.mp hfree (hnewline ▸ List.mem_reverse.mp hc)
  rw [List.reverse_append, List.takeWhile_append_of_pos hall, List.length_append,
    List.length_reverse] at hcolumn
  exact ht (List.length_eq_zero_iff.mp (by omega))

end Text.Position

namespace Segment

theorem source_ne_nil (s : Segment) : s.source ≠ [] := by
  cases s with
  | literal c => exact List.cons_ne_nil _ _
  | comment body => exact List.cons_ne_nil _ _
  | output body => exact List.cons_ne_nil _ _
  | rawOutput body => exact List.cons_ne_nil _ _
  | bare word k => exact List.cons_ne_nil _ _
  | withArguments word k gap body => exact List.cons_ne_nil _ _

namespace Spelled

variable {before : List Char} {segments : List Segment} {tokens : List Token}

theorem position_behind (h : Spelled before segments tokens) :
    ∀ t ∈ tokens, ∃ read, t.position = .counted (before ++ read) := by
  induction h with
  | finish before => exact List.forall_mem_singleton.mpr ⟨[], by rw [List.append_nil]⟩
  | comment h ih =>
    intro t ht
    obtain ⟨read, hread⟩ := ih t ht
    exact ⟨_, by rw [hread, List.append_assoc]⟩
  | data c hrun hrest h ih =>
    refine List.forall_mem_cons.mpr ⟨⟨[], by rw [List.append_nil]⟩, fun t ht => ?_⟩
    obtain ⟨read, hread⟩ := ih t ht
    exact ⟨_, by rw [hread, List.append_assoc]⟩
  | mark hkind h ih =>
    refine List.forall_mem_cons.mpr ⟨⟨[], by rw [List.append_nil]⟩, fun t ht => ?_⟩
    obtain ⟨read, hread⟩ := ih t ht
    exact ⟨_, by rw [hread, List.append_assoc]⟩

/-- No later token stands at a position that text has been read behind. -/
theorem position_ne {read : List Char} (hread : read ≠ [])
    (h : Spelled (before ++ read) segments tokens) :
    Text.Position.counted before ∉ tokens.map (·.position) := by
  intro hmem
  obtain ⟨t, ht, hposition⟩ := List.mem_map.mp hmem
  obtain ⟨more, hmore⟩ := h.position_behind t ht
  refine Text.Position.counted_append_ne before (t := read ++ more) ?_ ?_
  · exact List.append_ne_nil_of_left_ne_nil hread more
  · rw [← List.append_assoc, ← hmore, hposition]

theorem positions_nodup (h : Spelled before segments tokens) :
    (tokens.map (·.position)).Nodup := by
  induction h with
  | finish before => exact List.nodup_cons.mpr ⟨List.not_mem_nil, List.nodup_nil⟩
  | comment h ih => exact ih
  | data c hrun hrest h ih =>
    refine List.nodup_cons.mpr ⟨h.position_ne ?_, ih⟩
    exact List.append_ne_nil_of_left_ne_nil (source_ne_nil _) _
  | mark hkind h ih => exact List.nodup_cons.mpr ⟨h.position_ne (source_ne_nil _), ih⟩

end Spelled

end Segment

namespace Node

mutual

def loopPlaces : Node → List Text.Position
  | .data _ _ | .output _ _ _ | .yielding _ _ _ | .including _ _ _ => []
  | .conditional _ _ body others otherwise =>
    loopPlacesOf body ++ loopPlacesOfOthers others ++ loopPlacesOf otherwise
  | .loop p _ _ _ body => p :: loopPlacesOf body
  | .whileLoop _ _ body => loopPlacesOf body

def loopPlacesOf : List Node → List Text.Position
  | [] => []
  | n :: ns => loopPlaces n ++ loopPlacesOf ns

def loopPlacesOfOthers : List (Code × List Node) → List Text.Position
  | [] => []
  | o :: os => loopPlacesOfOther o ++ loopPlacesOfOthers os

def loopPlacesOfOther : Code × List Node → List Text.Position
  | (_, body) => loopPlacesOf body

end

theorem loopPlacesOf_eq (ns : List Node) : loopPlacesOf ns = ns.flatMap loopPlaces := by
  induction ns with
  | nil => rfl
  | cons n ns ih => rw [loopPlacesOf, ih, List.flatMap_cons]

theorem loopPlacesOfOthers_eq (os : List (Code × List Node)) :
    loopPlacesOfOthers os = os.flatMap loopPlacesOfOther := by
  induction os with
  | nil => rfl
  | cons o os ih => rw [loopPlacesOfOthers, ih, List.flatMap_cons]

theorem loopPlacesOf_reverse (ns : List Node) :
    (loopPlacesOf ns.reverse).Perm (loopPlacesOf ns) := by
  rw [loopPlacesOf_eq, loopPlacesOf_eq]
  exact (List.reverse_perm ns).flatMap_right loopPlaces

theorem loopPlaces_sublist {n : Node} {ns : List Node} (h : n ∈ ns) :
    n.loopPlaces.Sublist (loopPlacesOf ns) := by
  rw [loopPlacesOf_eq]
  exact List.sublist_flatten_of_mem (List.mem_map_of_mem h)

/-- The bodies of a conditional have no loops but those of the conditional. -/
theorem loopPlaces_branch {p : Text.Position} {test : Code} {body otherwise : List Node}
    {others : List (Code × List Node)} {ns ms : List Node}
    (h : .conditional p test body others otherwise ∈ ns)
    (hm : ms = body ∨ ms = otherwise ∨ ∃ t, (t, ms) ∈ others) :
    (loopPlacesOf ms).Sublist (loopPlacesOf ns) := by
  refine List.Sublist.trans ?_ (loopPlaces_sublist h)
  rw [loopPlaces]
  rcases hm with rfl | rfl | ⟨t, ht⟩
  · exact (List.sublist_append_left _ _).trans (List.sublist_append_left _ _)
  · exact List.sublist_append_right _ _
  · refine List.Sublist.trans ?_ (List.sublist_append_left _ _)
    refine List.Sublist.trans ?_ (List.sublist_append_right _ _)
    rw [loopPlacesOfOthers_eq]
    exact List.sublist_flatten_of_mem (List.mem_map_of_mem (f := loopPlacesOfOther) ht)

/-- The loops around what stands among some nodes are loops of these. -/
theorem Holds.loopPlaces_subperm {loops loops' : List LoopScope} {ns : List Node} {e : Expr}
    (h : Node.Holds loops ns loops' e) :
    (loops'.map (·.position)).Subperm (loops.map (·.position) ++ loopPlacesOf ns) := by
  have hmore {before : List Text.Position} {ms ns : List Node}
      (hsub : (loopPlacesOf ms).Sublist (loopPlacesOf ns)) :
      (before ++ loopPlacesOf ms).Subperm (before ++ loopPlacesOf ns) :=
    (hsub.append_left before).subperm
  induction h with
  | shown _ | given _ | test _ | again _ | source _ | target _ _ | otherTest _ _ =>
    exact (List.sublist_append_left _ _).subperm
  | taken h _ ih => exact ih.trans (hmore (loopPlaces_branch h (.inl rfl)))
  | otherTaken h ho _ ih => exact ih.trans (hmore (loopPlaces_branch h (.inr (.inr ⟨_, ho⟩))))
  | otherwise h _ ih => exact ih.trans (hmore (loopPlaces_branch h (.inr (.inl rfl))))
  | pass h _ ih =>
    -- the loop is counted among those around its body now, no longer among those of the nodes
    refine (ih.trans List.perm_middle.symm.subperm).trans ?_
    exact ((loopPlaces_sublist h).append_left _).subperm
  | whilePass h _ ih => exact ih.trans (hmore (loopPlaces_sublist h))

end Node

namespace Tree

open Node (loopPlacesOf loopPlacesOfOthers loopPlacesOfOther loopPlacesOf_reverse)

/-- Where the loops of the finished branches of a block stand, and the block if it is a loop. -/
def Opening.loopPlaces (p : Text.Position) : Opening → List Text.Position
  | .loopOver _ _ _ => [p]
  | .laterBranch _ body others _ | .lastBranch _ body others =>
    loopPlacesOf body ++ loopPlacesOfOthers others
  | _ => []

def Frame.loopPlaces (f : Frame) : List Text.Position :=
  f.opening.loopPlaces f.position ++ loopPlacesOf f.done

def Item.loopPlaces : Item → List Text.Position
  | .node n => n.loopPlaces
  | .section s => loopPlacesOf s.body

theorem Opening.loopPlaces_of_opens {t : Token} {o : Opening} (h : t.Opens o)
    (p : Text.Position) : (o.loopPlaces p).Sublist [p] := by
  cases h with
  | conditional hk => exact List.nil_sublist _
  | loopOver hk => exact List.Sublist.refl _
  | loopWhile hk => exact List.nil_sublist _
  | «section» hk => exact List.nil_sublist _

/-- The branches of a conditional have the loops that it has read. -/
theorem Frame.Branches.loopPlaces_perm {f : Frame} {test : Code} {first : List Node}
    {others : List (Code × List Node)} (h : f.Branches test first others) :
    (loopPlacesOf first ++ loopPlacesOfOthers others).Perm f.loopPlaces := by
  cases h with
  | first hf =>
    simp only [Frame.loopPlaces, hf, Opening.loopPlaces, loopPlacesOfOthers, List.append_nil,
      List.nil_append]
    exact loopPlacesOf_reverse f.done
  | later hf =>
    simp only [Frame.loopPlaces, hf, Opening.loopPlaces, Node.loopPlacesOfOthers_eq,
      List.flatMap_append, List.flatMap_cons, List.flatMap_nil, loopPlacesOfOther,
      List.append_nil, ← List.append_assoc]
    exact (loopPlacesOf_reverse f.done).append_left _

namespace Reading

def loopPlaces (r : Reading) : List Text.Position :=
  r.frames.flatMap Frame.loopPlaces ++ r.items.flatMap Item.loopPlaces

variable {r r' : Reading} {t : Token}

theorem loopPlaces_of_frames {f : Frame} {fs : List Frame} (hr : r.frames = f :: fs) :
    r.loopPlaces = f.loopPlaces ++ { r with frames := fs }.loopPlaces := by
  simp only [loopPlaces, hr, List.flatMap_cons, List.append_assoc]

theorem loopPlaces_item (i : Item) :
    { r with items := i :: r.items }.loopPlaces.Perm (i.loopPlaces ++ r.loopPlaces) := by
  simp only [loopPlaces, List.flatMap_cons]
  exact List.perm_append_comm_assoc _ _ _

theorem loopPlaces_push (n : Node) :
    (r.push n).loopPlaces.Perm (n.loopPlaces ++ r.loopPlaces) := by
  unfold push
  split
  · exact loopPlaces_item (.node n)
  · rename_i f fs hr
    rw [loopPlaces_of_frames rfl, loopPlaces_of_frames hr, Frame.loopPlaces, Frame.loopPlaces,
      loopPlacesOf, ← List.append_assoc n.loopPlaces]
    exact (List.perm_append_comm_assoc _ _ _).append_right _

theorem loopPlaces_close {f : Frame} {fs : List Frame} (hr : r.frames = f :: fs) :
    (r.close f fs).loopPlaces.Perm r.loopPlaces := by
  have hdone := loopPlacesOf_reverse f.done
  rw [loopPlaces_of_frames hr]
  unfold close
  cases hopening : f.opening with
  | sectionOf name =>
    refine (loopPlaces_item _).trans (List.Perm.append_right _ ?_)
    rw [Frame.loopPlaces, hopening]
    exact hdone
  | firstBranch test =>
    refine (loopPlaces_push _).trans (List.Perm.append_right _ ?_)
    rw [Node.loopPlaces, loopPlacesOf, List.append_nil]
    exact (Frame.Branches.first hopening).loopPlaces_perm
  | laterBranch test first others current =>
    refine (loopPlaces_push _).trans (List.Perm.append_right _ ?_)
    rw [Node.loopPlaces, loopPlacesOf, List.append_nil]
    exact (Frame.Branches.later hopening).loopPlaces_perm
  | lastBranch test first others =>
    refine (loopPlaces_push _).trans (List.Perm.append_right _ ?_)
    rw [Node.loopPlaces, Frame.loopPlaces, hopening]
    exact hdone.append_left _
  | loopOver k target source =>
    refine (loopPlaces_push _).trans (List.Perm.append_right _ ?_)
    rw [Node.loopPlaces, Frame.loopPlaces, hopening]
    exact hdone.cons f.position
  | loopWhile test =>
    refine (loopPlaces_push _).trans (List.Perm.append_right _ ?_)
    rw [Node.loopPlaces, Frame.loopPlaces, hopening]
    exact hdone

theorem Does.loopPlaces_subperm (h : r.Does t r') :
    r'.loopPlaces.Subperm (t.position :: r.loopPlaces) := by
  have hsame {r₁ : Reading} (hp : r₁.loopPlaces.Perm r.loopPlaces) :
      r₁.loopPlaces.Subperm (t.position :: r.loopPlaces) := hp.subperm.cons_right t.position
  have hbranch {f : Frame} {fs : List Frame} {o : Opening} (hr : r.frames = f :: fs)
      (ho : (o.loopPlaces f.position).Perm f.loopPlaces) :
      ({ r with frames := ⟨f.position, o, []⟩ :: fs } : Reading).loopPlaces.Subperm
        (t.position :: r.loopPlaces) := by
    refine hsame ?_
    rw [loopPlaces_of_frames rfl, loopPlaces_of_frames hr, Frame.loopPlaces, loopPlacesOf,
      List.append_nil]
    exact ho.append_right _
  cases h with
  | @push n hn =>
    have hnone : n.loopPlaces = [] := by cases hn <;> rfl
    refine hsame ((loopPlaces_push n).trans ?_)
    rw [hnone, List.nil_append]
  | @enter o ho hinner =>
    rw [Reading.enter, loopPlaces_of_frames rfl, Frame.loopPlaces, loopPlacesOf, List.append_nil]
    exact ((Opening.loopPlaces_of_opens ho t.position).append_right _).subperm
  | branch hr hf hk hnext => exact hbranch hr hf.loopPlaces_perm
  | lastBranch hr hf hk => exact hbranch hr hf.loopPlaces_perm
  | close hr hk => exact hsame (loopPlaces_close hr)
  | inlineSection hk hinner => exact hsame (loopPlaces_item _)
  | layout hk hinner hlayout => exact hsame (List.Perm.refl _)
  | finish hk hr => exact hsame (List.Perm.refl _)

/-- What has been read has at most a loop for each token, at its position. -/
theorem foldlM_loopPlaces {tokens : List Token} (h : tokens.foldlM step r = .ok r') :
    r'.loopPlaces.Subperm (tokens.map (·.position) ++ r.loopPlaces) := by
  induction tokens generalizing r with
  | nil =>
    cases h
    exact .refl _
  | cons t tokens ih =>
    rw [List.foldlM_cons] at h
    obtain ⟨r₁, hstep, hrest⟩ := bind_ok h
    have hfirst := (does_of_step hstep).loopPlaces_subperm
    refine (ih hrest).trans (((List.subperm_append_left _).mpr hfirst).trans ?_)
    exact List.perm_middle.subperm

end Reading

theorem loopPlacesOf_nodesOf (items : List Item) :
    (loopPlacesOf (nodesOf items)).Sublist (items.flatMap Item.loopPlaces) := by
  induction items with
  | nil => exact List.Sublist.refl _
  | cons i items ih =>
    rw [List.flatMap_cons]
    cases i with
    | node n => exact ih.append_left _
    | «section» s => exact ih.trans (List.sublist_append_right _ _)

theorem assemble_loopPlaces {layout : Option Layout} {items : List Item} {tree : Tree}
    {orphans : List Text.Position} (h : assemble layout items = .ok (tree, orphans))
    {body : List Node} (hbody : body ∈ tree.bodies) :
    (loopPlacesOf body).Sublist (items.flatMap Item.loopPlaces) := by
  unfold assemble at h
  split at h
  · cases h
    obtain ⟨s, hs, rfl⟩ := List.mem_map.mp hbody
    have hmem := (mem_foldl_defineItem items [] hs).resolve_left List.not_mem_nil
    exact List.sublist_flatten_of_mem (List.mem_map_of_mem (f := Item.loopPlaces) hmem)
  · split at h
    · cases h
    · cases h
      rw [List.mem_singleton.mp hbody]
      exact loopPlacesOf_nodesOf items

end Tree

/-- The loops of a body of a template that was read are at different positions. -/
theorem Template.IsRead.loopPlaces_nodup {t : Template} (h : t.IsRead) {body : List Node}
    (hbody : body ∈ t.tree.bodies) : (Node.loopPlacesOf body).Nodup := by
  obtain ⟨tokens, r, orphans, htokens, hrun, hassemble⟩ := h.reading
  obtain ⟨segments, -, -, hspelled⟩ := Segment.spelled_of_tokens htokens
  have hitems := (Tree.assemble_loopPlaces hassemble hbody).subperm.trans
    ((List.reverse_perm r.items).flatMap_right Tree.Item.loopPlaces).subperm
  have hread : (r.items.flatMap Tree.Item.loopPlaces).Subperm r.loopPlaces :=
    (List.sublist_append_right _ _).subperm
  have htokens := Tree.Reading.foldlM_loopPlaces hrun
  have hempty : Tree.Reading.empty.loopPlaces = [] := rfl
  rw [hempty, List.append_nil] at htokens
  obtain ⟨places, hperm, hsub⟩ := (hitems.trans hread).trans htokens
  exact hperm.nodup_iff.mp (hspelled.positions_nodup.sublist hsub)

theorem Template.IsRead.loops_apart {t : Template} (h : t.IsRead) {loops : List LoopScope}
    {context : List Shade} {e : Expr} (he : t.Holds loops context e) :
    (loops.map (·.position)).Nodup := by
  obtain ⟨body, hbody, whole, hwhole, -⟩ := he
  have hloops : (loops.map (·.position)).Subperm (Node.loopPlacesOf body) :=
    hwhole.loopPlaces_subperm
  obtain ⟨places, hperm, hsub⟩ := hloops
  exact hperm.nodup_iff.mp ((h.loopPlaces_nodup hbody).sublist hsub)

end Stencil
