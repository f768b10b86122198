import Stencil.Proofs.Moved
import Stencil.Proofs.Readback
import Stencil.Proofs.WholeLines

/-!
# Pages of joined texts

What a token makes does not depend on where it stands, nor on what has been finished before it. So
the tokens of a page make the same nodes behind those of another page, further down, and the
literal text with which the one ends goes on in the literal text with which the other begins.
-/

namespace Stencil

open Text (Position)

namespace Node

variable (m : Position → Position)

theorem movedAll_reverse (ns : List Node) : movedAll m ns.reverse = (movedAll m ns).reverse := by
  simp only [movedAll_eq_map, List.map_reverse]

theorem movedOthers_append (os os' : List (Code × List Node)) :
    movedOthers m (os ++ os') = movedOthers m os ++ movedOthers m os' := by
  induction os with
  | nil => rfl
  | cons o os ih => rw [List.cons_append, movedOthers, movedOthers, ih, List.cons_append]

/-- The nodes of two pages as those of one: the second stands elsewhere, and the literal text with
which the first ends goes on in it. -/
inductive Joins : List Node → List Node → List Node → Prop
  | apart (init : List Node) (q : Position) (s : String) (ns : List Node) :
      Joins (init ++ [.data q s]) ns (init ++ .data q s :: movedAll m ns)
  | merged (init : List Node) (q : Position) (s : String) (p : Position) (s' : String)
      (ns : List Node) : Joins (init ++ [.data q s]) (.data p s' :: ns)
        (init ++ .data q (s ++ s') :: movedAll m ns)

end Node

namespace Tree

/-- If the first reading succeeds, so does the second, and `R` relates what they make. -/
def Rereads {α β : Type} (R : α → β → Prop) (x : Except Rejection α) (y : Except Rejection β) :
    Prop :=
  ∀ a, x = .ok a → ∃ b, y = .ok b ∧ R a b

namespace Rereads

variable {α β γ δ : Type} {R : α → β → Prop} {S : γ → δ → Prop}

theorem ok {a : α} {b : β} (h : R a b) : Rereads R (.ok a) (.ok b) := by
  rintro _ ⟨⟩
  exact ⟨b, rfl, h⟩

theorem refused (e : Rejection) {y : Except Rejection β} : Rereads R (.error e) y := nofun

theorem bind {x : Except Rejection α} {y : Except Rejection β} {f : α → Except Rejection γ}
    {g : β → Except Rejection δ} (hx : Rereads R x y) (hf : ∀ a b, R a b → Rereads S (f a) (g b)) :
    Rereads S (x >>= f) (y >>= g) := by
  intro c hc
  obtain ⟨a, ha, hc⟩ := Reading.bind_ok hc
  obtain ⟨b, hb, hab⟩ := hx a ha
  obtain ⟨d, hd, hcd⟩ := hf a b hab c hc
  exact ⟨d, (Reading.ok_bind hb).trans hd, hcd⟩

end Rereads

end Tree

open Stencil.Tree (Rereads)

namespace Written

variable (m : Position → Position) (w : Written)

def moved : Written := { w with position := m w.position }

def IsMoved (c c' : Code) : Prop := c' = c.moved m

theorem permitted_moved (text : String) (e : Expr) :
    Rereads (fun _ _ => True) (w.permitted text e) ((w.moved m).permitted text e) := by
  unfold permitted
  split
  · exact .refused _
  · exact .ok trivial

theorem expressionOf_moved (text : String) :
    Rereads (IsMoved m) (w.expressionOf text) ((w.moved m).expressionOf text) := by
  unfold expressionOf
  split
  · exact .refused _
  · split
    · exact .refused _
    · exact .bind (w.permitted_moved m text _) fun _ _ _ => .ok rfl

theorem argumentList_moved (least most : Nat) :
    Rereads (fun l l' => l' = l.map (Code.moved m)) (w.argumentList least most)
      ((w.moved m).argumentList least most) := by
  have heach (arguments : List Expr.Written) : Rereads (fun l l' => l' = l.map (Code.moved m))
      (arguments.mapM fun a => do
        w.permitted a.text a.expr
        return (⟨w.position, a.text, a.expr⟩ : Code))
      (arguments.mapM fun a => do
        (w.moved m).permitted a.text a.expr
        return (⟨(w.moved m).position, a.text, a.expr⟩ : Code)) := by
    induction arguments with
    | nil => exact .ok rfl
    | cons a arguments ih =>
      rw [List.mapM_cons, List.mapM_cons]
      refine .bind (R := IsMoved m) ?_ fun c c' hc => .bind ih fun l l' hl => .ok ?_
      · exact .bind (w.permitted_moved m a.text a.expr) fun _ _ _ => .ok rfl
      · rw [hc, hl]
        rfl
  unfold argumentList
  rw [show (w.moved m).arguments = w.arguments from rfl]
  cases Expr.readArguments w.arguments.toList with
  | error e => cases e <;> exact .refused _
  | ok list =>
    dsimp only
    split
    · exact .refused _
    · split
      · exact .refused _
      · exact heach list.positional

theorem literal_moved (what : String) {c c' : Code} (hc : c'.expr = c.expr) :
    Rereads (· = ·) (w.literal what c) ((w.moved m).literal what c') := by
  unfold literal
  rw [hc]
  split
  · exact .ok rfl
  · exact .refused _

theorem name_moved (what : String) (l : List Code) :
    Rereads (· = ·) (w.literal what (l.headD default))
      ((w.moved m).literal what ((l.map (Code.moved m)).headD default)) := by
  refine w.literal_moved m what ?_
  cases l <;> rfl

theorem place_moved : Rereads (· = ·) w.place (w.moved m).place := by
  unfold place
  refine .bind (w.argumentList_moved m 1 2) fun l l' hl => ?_
  subst hl
  refine .bind (w.name_moved m _ l) fun name name' hname => ?_
  subst hname
  rw [← List.map_drop]
  cases l.drop 1 with
  | nil => exact .ok rfl
  | cons value rest =>
    exact .bind (w.literal_moved m _ rfl) fun fallback fallback' h => .ok (congrArg _ h)

theorem loopHeader_moved :
    Rereads (fun h h' => h' = (h.1.moved m, h.2.moved m)) w.loopHeader
      (w.moved m).loopHeader := by
  unfold loopHeader
  rw [show (w.moved m).arguments = w.arguments from rfl]
  dsimp only
  split
  · exact .refused _
  · split
    · exact .refused _
    · split
      · refine .bind (w.expressionOf_moved m _) fun c c' hc => .ok ?_
        rw [hc]
        rfl
      · exact .refused _

end Written

namespace Tree

variable (m : Position → Position)

def Opening.moved : Opening → Opening
  | .sectionOf name => .sectionOf name
  | .firstBranch test => .firstBranch (test.moved m)
  | .laterBranch test body others current =>
    .laterBranch (test.moved m) (Node.movedAll m body) (Node.movedOthers m others)
      (current.moved m)
  | .lastBranch test body others =>
    .lastBranch (test.moved m) (Node.movedAll m body) (Node.movedOthers m others)
  | .loopOver k target source => .loopOver k (target.moved m) (source.moved m)
  | .loopWhile test => .loopWhile (test.moved m)

theorem Opening.moved_block (o : Opening) : (o.moved m).block = o.block := by cases o <;> rfl

def Frame.moved (f : Frame) : Frame :=
  ⟨m f.position, f.opening.moved m, Node.movedAll m f.done⟩

def Item.moved : Item → Item
  | .node n => .node (n.moved m)
  | .section s => .section ⟨m s.position, s.name, Node.movedAll m s.body⟩

namespace Reading

/-- The second reading has the same blocks open as the first, at other places, and has finished the
same behind other content. -/
structure Shifted (below below' : List Item) (r r' : Reading) : Prop where
  layout : r'.layout = r.layout.map fun l => ⟨m l.position, l.name⟩
  frames : r'.frames = r.frames.map (Frame.moved m)
  items : ∃ top, r.items = top ++ below ∧ r'.items = top.map (Item.moved m) ++ below'

namespace Shifted

variable {m} {below below' : List Item} {r r' : Reading} (h : Shifted m below below' r r')

include h

theorem withFrames (fs : List Frame) : Shifted m below below' { r with frames := fs }
    { r' with frames := fs.map (Frame.moved m) } := ⟨h.layout, rfl, h.items⟩

theorem item (i : Item) : Shifted m below below' { r with items := i :: r.items }
    { r' with items := i.moved m :: r'.items } := by
  obtain ⟨top, hitems, hitems'⟩ := h.items
  refine ⟨h.layout, h.frames, i :: top, ?_, ?_⟩
  · rw [hitems, List.cons_append]
  · rw [hitems', List.map_cons, List.cons_append]

theorem push (n : Node) : Shifted m below below' (r.push n) (r'.push (n.moved m)) := by
  obtain ⟨layout, frames, items⟩ := r
  obtain ⟨layout', frames', items'⟩ := r'
  obtain rfl : frames' = frames.map (Frame.moved m) := h.frames
  cases frames with
  | nil => exact h.item (.node n)
  | cons f fs => exact h.withFrames ({ f with done := n :: f.done } :: fs)

theorem enter (p : Position) (o : Opening) :
    Shifted m below below' (r.enter p o) (r'.enter (m p) (o.moved m)) := by
  unfold Reading.enter
  rw [h.frames]
  exact h.withFrames (⟨p, o, []⟩ :: r.frames)

theorem close (f : Frame) (fs : List Frame) : Shifted m below below' (r.close f fs)
    (r'.close (f.moved m) (fs.map (Frame.moved m))) := by
  obtain ⟨p, o, done⟩ := f
  have hrest := h.withFrames fs
  have hdone : (Node.movedAll m done).reverse = Node.movedAll m done.reverse :=
    (Node.movedAll_reverse m done).symm
  unfold Reading.close Frame.moved
  dsimp only
  rw [hdone]
  cases o with
  | sectionOf name => exact hrest.item (.section ⟨p, name, done.reverse⟩)
  | firstBranch test => exact hrest.push (.conditional p test done.reverse [] [])
  | laterBranch test first others current =>
    have hpush := hrest.push (.conditional p test first (others ++ [(current, done.reverse)]) [])
    rw [Node.moved, Node.movedOthers_append] at hpush
    exact hpush
  | lastBranch test first others => exact hrest.push (.conditional p test first others done.reverse)
  | loopOver k target source => exact hrest.push (.loop p k target source done.reverse)
  | loopWhile test => exact hrest.push (.whileLoop p test done.reverse)

theorem innermost_none (hr : r.innermost = none) : r'.innermost = none := by
  unfold innermost at hr ⊢
  rw [h.frames]
  cases hframes : r.frames with
  | nil => rfl
  | cons f fs =>
    rw [hframes] at hr
    cases hr

end Shifted

variable {m} {below below' : List Item} {r r' : Reading}

theorem opening_shifted (h : Shifted m below below' r r') (b : Block) (w : Written) :
    Rereads (Shifted m below below') (r.opening b w) (r'.opening b (w.moved m)) := by
  cases b with
  | ifBlock =>
    refine .bind (w.expressionOf_moved m _) fun c c' hc => .ok ?_
    rw [hc]
    exact h.enter w.position (.firstBranch c)
  | whileBlock =>
    refine .bind (w.expressionOf_moved m _) fun c c' hc => .ok ?_
    rw [hc]
    exact h.enter w.position (.loopWhile c)
  | foreachBlock =>
    refine .bind (w.loopHeader_moved m) fun c c' hc => .ok ?_
    rw [hc]
    exact h.enter w.position (.loopOver .foreach c.1 c.2)
  | forBlock =>
    refine .bind (w.loopHeader_moved m) fun c c' hc => .ok ?_
    rw [hc]
    exact h.enter w.position (.loopOver .for c.1 c.2)
  | sectionBlock =>
    unfold opening
    dsimp only
    cases hr : r.innermost with
    | some b => exact .refused _
    | none =>
      rw [h.innermost_none hr]
      refine .bind (w.argumentList_moved m 1 2) fun l l' hl => ?_
      subst hl
      refine .bind (w.name_moved m _ l) fun name name' hname => ?_
      subst hname
      rw [← List.map_drop]
      cases l.drop 1 with
      | nil => exact .ok (h.enter w.position (.sectionOf name))
      | cons value rest =>
        exact .ok (h.item (.section ⟨w.position, name, [.output w.position value true]⟩))

theorem branch_shifted (h : Shifted m below below' r r') (w : Written) :
    Rereads (Shifted m below below') (r.branch w) (r'.branch (w.moved m)) := by
  unfold branch
  rw [h.frames]
  cases r.frames with
  | nil => exact .refused _
  | cons f fs =>
    obtain ⟨p, o, done⟩ := f
    cases o with
    | firstBranch test =>
      refine .bind (w.expressionOf_moved m _) fun c c' hc => .ok ?_
      have hbranch := h.withFrames (⟨p, .laterBranch test done.reverse [] c, []⟩ :: fs)
      rw [List.map_cons, Frame.moved, Opening.moved, Node.movedAll_reverse] at hbranch
      rw [hc]
      exact hbranch
    | laterBranch test first others current =>
      refine .bind (w.expressionOf_moved m _) fun c c' hc => .ok ?_
      have hbranch := h.withFrames
        (⟨p, .laterBranch test first (others ++ [(current, done.reverse)]) c, []⟩ :: fs)
      rw [List.map_cons, Frame.moved, Opening.moved, Node.movedOthers_append, Node.movedOthers,
        Node.movedOther, Node.movedAll_reverse] at hbranch
      rw [hc]
      exact hbranch
    | _ => exact .refused _

theorem lastBranch_shifted (h : Shifted m below below' r r') (p : Position) :
    Rereads (Shifted m below below') (r.lastBranch p) (r'.lastBranch (m p)) := by
  unfold lastBranch
  rw [h.frames]
  cases r.frames with
  | nil => exact .refused _
  | cons f fs =>
    obtain ⟨q, o, done⟩ := f
    cases o with
    | firstBranch test =>
      have hbranch := h.withFrames (⟨q, .lastBranch test done.reverse [], []⟩ :: fs)
      rw [List.map_cons, Frame.moved, Opening.moved, Node.movedAll_reverse] at hbranch
      exact .ok hbranch
    | laterBranch test first others current =>
      have hbranch := h.withFrames
        (⟨q, .lastBranch test first (others ++ [(current, done.reverse)]), []⟩ :: fs)
      rw [List.map_cons, Frame.moved, Opening.moved, Node.movedOthers_append, Node.movedOthers,
        Node.movedOther, Node.movedAll_reverse] at hbranch
      exact .ok hbranch
    | _ => exact .refused _

theorem closing_shifted (h : Shifted m below below' r r') (b : Block) (p : Position) :
    Rereads (Shifted m below below') (r.closing b p) (r'.closing b (m p)) := by
  unfold closing
  rw [h.frames]
  cases r.frames with
  | nil => exact .refused _
  | cons f fs =>
    change Rereads _ (if _ then _ else _) (if (f.opening.moved m).block = b then _ else _)
    rw [Opening.moved_block]
    split
    · exact .ok (h.close f fs)
    · exact .refused _

theorem layoutDirective_shifted (h : Shifted m below below' r r') (w : Written) :
    Rereads (Shifted m below below') (r.layoutDirective w) (r'.layoutDirective (w.moved m)) := by
  unfold layoutDirective
  rw [h.layout]
  cases hr : r.innermost with
  | some b => exact .refused _
  | none =>
    rw [h.innermost_none hr]
    cases r.layout with
    | some l => exact .refused _
    | none =>
      refine .bind (w.argumentList_moved m 1 1) fun l l' hl => ?_
      subst hl
      refine .bind (w.name_moved m _ l) fun name name' hname => .ok ?_
      subst hname
      exact ⟨rfl, h.frames, h.items⟩

theorem step_shifted (h : Shifted m below below' r r') (t : Token) :
    Rereads (Shifted m below below') (r.step t) (r'.step (t.moved m)) := by
  obtain ⟨kind, p⟩ := t
  cases kind with
  | data text => exact .ok (h.push (.data p text))
  | output text =>
    refine .bind ((⟨p, none, text⟩ : Written).expressionOf_moved m _) fun c c' hc => .ok ?_
    rw [hc]
    exact h.push (.output p c true)
  | rawOutput text =>
    refine .bind ((⟨p, none, text⟩ : Written).expressionOf_moved m _) fun c c' hc => .ok ?_
    rw [hc]
    exact h.push (.output p c false)
  | finish =>
    unfold step
    change Rereads _ r.finish r'.finish
    unfold finish
    rw [h.frames]
    cases r.frames with
    | nil => exact .ok h
    | cons f fs => exact .refused _
  | directive k arguments =>
    let w : Written := ⟨p, some k, arguments.getD ""⟩
    change Rereads _ (r.directive k w) (r'.directive k (w.moved m))
    cases k with
    | opening b => exact opening_shifted h b w
    | closing b => exact closing_shifted h b p
    | elseIf => exact branch_shifted h w
    | otherwise => exact lastBranch_shifted h p
    | layout => exact layoutDirective_shifted h w
    | yielding =>
      refine .bind (w.place_moved m) fun place place' hplace => .ok ?_
      subst hplace
      exact h.push (.yielding p place.1 place.2)
    | including =>
      refine .bind (w.argumentList_moved m 1 2) fun l l' hl => ?_
      subst hl
      refine .bind (w.name_moved m _ l) fun name name' hname => .ok ?_
      subst hname
      have hpush := h.push (.including p name (l.drop 1).head?)
      rw [← List.map_drop, List.head?_map]
      exact hpush

theorem foldlM_shifted (h : Shifted m below below' r r') (ts : List Token) :
    Rereads (Shifted m below below') (ts.foldlM step r)
      ((ts.map (Token.moved m)).foldlM step r') := by
  induction ts generalizing r r' with
  | nil => exact .ok h
  | cons t ts ih =>
    rw [List.map_cons, List.foldlM_cons, List.foldlM_cons]
    exact .bind (step_shifted h t) fun _ _ h => ih h

end Reading

theorem firstSection?_append (items more : List Item) :
    firstSection? (items ++ more) = (firstSection? items).or (firstSection? more) :=
  List.findSome?_append

theorem firstSection?_moved {items : List Item} (h : firstSection? items = none) :
    firstSection? (items.map (Item.moved m)) = none := by
  refine List.findSome?_eq_none_iff.mpr fun i hi => ?_
  obtain ⟨j, hj, rfl⟩ := List.mem_map.mp hi
  have hnode := List.findSome?_eq_none_iff.mp h j hj
  cases j with
  | node n => rfl
  | «section» s => cases hnode

theorem nodesOf_append (items more : List Item) :
    nodesOf (items ++ more) = nodesOf items ++ nodesOf more := List.filterMap_append

theorem nodesOf_moved (items : List Item) :
    nodesOf (items.map (Item.moved m)) = Node.movedAll m (nodesOf items) := by
  induction items with
  | nil => rfl
  | cons i items ih =>
    cases i with
    | node n => exact congrArg (n.moved m :: ·) ih
    | «section» s => exact ih

theorem assemble_page {layout : Option Layout} {items : List Item} {nodes : List Node}
    {orphans : List Position} :
    assemble layout items = .ok (.page nodes, orphans) ↔
      layout = none ∧ firstSection? items = none ∧ nodesOf items = nodes ∧ orphans = [] := by
  unfold assemble
  cases layout with
  | some l => simp
  | none =>
    cases hfirst : firstSection? items with
    | some s => simp
    | none => simp [eq_comm]

namespace Reading

/-- What makes a page behind some content makes the same nodes behind other content. -/
theorem page_behind {below : List Item} {us : List Token} {r : Reading} {nodes : List Node}
    {orphans : List Position} (h : us.foldlM step ⟨none, [], below⟩ = .ok r)
    (hpage : assemble r.layout r.items.reverse = .ok (.page nodes, orphans)) {below' : List Item}
    (hbelow' : firstSection? below'.reverse = none) :
    ∃ ns r', nodes = nodesOf below.reverse ++ ns ∧
      (us.map (Token.moved m)).foldlM step ⟨none, [], below'⟩ = .ok r' ∧
      assemble r'.layout r'.items.reverse =
        .ok (.page (nodesOf below'.reverse ++ Node.movedAll m ns), []) := by
  have hstart : Shifted m below below' ⟨none, [], below⟩ ⟨none, [], below'⟩ :=
    ⟨rfl, rfl, [], rfl, rfl⟩
  obtain ⟨r', hr', hshifted⟩ := foldlM_shifted hstart us r h
  obtain ⟨top, hitems, hitems'⟩ := hshifted.items
  obtain ⟨hlayout, hsections, hnodes, -⟩ := assemble_page.mp hpage
  rw [hitems, List.reverse_append, firstSection?_append, Option.or_eq_none_iff] at hsections
  rw [hitems, List.reverse_append, nodesOf_append] at hnodes
  refine ⟨nodesOf top.reverse, r', hnodes.symm, hr', assemble_page.mpr ⟨?_, ?_, ?_, rfl⟩⟩
  · rw [hshifted.layout, hlayout, Option.map_none]
  · rw [hitems', List.reverse_append, ← List.map_reverse, firstSection?_append, hbelow',
      firstSection?_moved m hsections.2, Option.or_none]
  · rw [hitems', List.reverse_append, ← List.map_reverse, nodesOf_append, nodesOf_moved]

end Reading

/-- The tokens of two pages make one page where those of the second are joined to those of the
first. -/
theorem ofTokens_joined {ts us : List Token} {s : String} {q stop : Position} {ns ns' : List Node}
    {orphans orphans' : List Position}
    (h : ofTokens (ts ++ [⟨.data s, q⟩, ⟨.finish, stop⟩]) = .ok (.page ns, orphans))
    (h' : ofTokens us = .ok (.page ns', orphans')) : ∃ nodes, Node.Joins m ns ns' nodes ∧
      ofTokens (ts ++ Token.join ⟨.data s, q⟩ (us.map (Token.moved m))) =
        .ok (.page nodes, []) := by
  have hsplit : ts ++ [⟨.data s, q⟩, ⟨.finish, stop⟩] =
      ts ++ [⟨.data s, q⟩] ++ [⟨.finish, stop⟩] := by
    rw [List.append_assoc]
    rfl
  obtain ⟨r, hr, hframes, hpage⟩ := ofTokens_ok.mp (hsplit ▸ h)
  rw [List.foldlM_append] at hr
  obtain ⟨⟨layout, frames, items⟩, hfirst, hdata⟩ := Reading.bind_ok hr
  rw [List.foldlM_cons] at hdata
  obtain ⟨_, ⟨⟩, ⟨⟩⟩ := Reading.bind_ok hdata
  cases frames with
  | cons f fs => cases hframes
  | nil =>
    obtain ⟨hlayout, hsections, hnodes, -⟩ := assemble_page.mp hpage
    obtain rfl : layout = none := hlayout
    change firstSection? (.node (.data q s) :: items).reverse = none at hsections
    change nodesOf (.node (.data q s) :: items).reverse = ns at hnodes
    rw [List.reverse_cons, nodesOf_append] at hnodes
    rw [List.reverse_cons, firstSection?_append, Option.or_eq_none_iff] at hsections
    subst hnodes
    obtain ⟨r', hr', hpage'⟩ := Reading.bind_ok h'
    -- literal text behind the first page, and what comes of the tokens behind it
    have hbehind (text : String) {below : List Item} {us' : List Token}
        (hread : us'.foldlM Reading.step ⟨none, [], below⟩ = .ok r') :
        ∃ ns₁, ns' = nodesOf below.reverse ++ ns₁ ∧
          ofTokens (ts ++ ⟨.data text, q⟩ :: us'.map (Token.moved m)) =
            .ok (.page (nodesOf items.reverse ++ .data q text :: Node.movedAll m ns₁), []) := by
      have hnone : firstSection? (.node (.data q text) :: items).reverse = none := by
        rw [List.reverse_cons, firstSection?_append, hsections.1]
        rfl
      obtain ⟨ns₁, r₁, hns', hr₁, hpage₁⟩ := Reading.page_behind m hread hpage' hnone
      rw [List.reverse_cons, nodesOf_append, List.append_assoc] at hpage₁
      refine ⟨ns₁, hns', ?_⟩
      unfold ofTokens
      rw [List.foldlM_append, Reading.ok_bind hfirst, List.foldlM_cons]
      exact (Reading.ok_bind hr₁).trans hpage₁
    have hapart : ∃ nodes, Node.Joins m (nodesOf items.reverse ++ [.data q s]) ns' nodes ∧
        ofTokens (ts ++ ⟨.data s, q⟩ :: us.map (Token.moved m)) = .ok (.page nodes, []) := by
      obtain ⟨ns₁, hns', hnodes⟩ := hbehind s hr'
      exact ⟨_, hns' ▸ .apart _ q s ns₁, hnodes⟩
    rcases us with _ | ⟨⟨kind, p⟩, us⟩
    · exact hapart
    · cases kind with
      | data s' =>
        rw [List.foldlM_cons] at hr'
        obtain ⟨_, ⟨⟩, hread⟩ := Reading.bind_ok hr'
        obtain ⟨ns₁, hns', hnodes⟩ := hbehind (s ++ s') hread
        exact ⟨_, hns' ▸ .merged _ q s p s' ns₁, hnodes⟩
      | _ => exact hapart

end Tree

namespace Node

variable {m : Position → Position} {ns ns' nodes : List Node}

theorem expressionsOf_append (ns ns' : List Node) :
    expressionsOf (ns ++ ns') = expressionsOf ns ++ expressionsOf ns' := by
  induction ns with
  | nil => rfl
  | cons n ns ih => rw [List.cons_append, expressionsOf, expressionsOf, ih, List.append_assoc]

theorem loopDepths_append (ns ns' : List Node) :
    loopDepths (ns ++ ns') = max (loopDepths ns) (loopDepths ns') := by
  induction ns with
  | nil => exact (Nat.zero_max _).symm
  | cons n ns ih => rw [List.cons_append, loopDepths, loopDepths, ih, Nat.max_assoc]

theorem Joins.expressionsOf (h : Joins m ns ns' nodes) : Node.expressionsOf nodes =
    Node.expressionsOf ns ++ (Node.expressionsOf ns').map (Code.moved m) := by
  cases h with
  | apart init q s ns' =>
    rw [expressionsOf_append, expressionsOf_append, ← expressionsOf_moved, List.append_assoc]
    rfl
  | merged init q s p s' ns' =>
    rw [expressionsOf_append, expressionsOf_append, List.append_assoc]
    exact congrArg _ (expressionsOf_moved m ns')

theorem Joins.loopDepths (h : Joins m ns ns' nodes) :
    Node.loopDepths nodes = max (Node.loopDepths ns) (Node.loopDepths ns') := by
  cases h with
  | apart init q s ns' =>
    simp only [loopDepths_append, Node.loopDepths, loopDepth, loopDepths_moved]
    omega
  | merged init q s p s' ns' =>
    simp only [loopDepths_append, Node.loopDepths, loopDepth, loopDepths_moved]
    omega

end Node

namespace Template

theorem bodyProblem?_none {ns : List Node} : bodyProblem? ns = none ↔
    (∀ c ∈ Node.expressionsOf ns, c.expr.firstSenseless? = none) ∧
      Node.loopDepths ns ≤ deepestLoops := by
  rw [← List.findSome?_eq_none_iff]
  unfold bodyProblem?
  cases (Node.expressionsOf ns).findSome? fun c => c.expr.firstSenseless? with
  | some senseless => simp
  | none => simp

/-- Pages that can be rendered are joined to one that can be rendered. -/
theorem bodyProblem?_joined {m : Position → Position} {ns ns' nodes : List Node}
    (h : Node.Joins m ns ns' nodes) (hns : bodyProblem? ns = none)
    (hns' : bodyProblem? ns' = none) : bodyProblem? nodes = none := by
  obtain ⟨hsense, hdepth⟩ := bodyProblem?_none.mp hns
  obtain ⟨hsense', hdepth'⟩ := bodyProblem?_none.mp hns'
  refine bodyProblem?_none.mpr ⟨fun c hc => ?_, h.loopDepths ▸ Nat.max_le.mpr ⟨hdepth, hdepth'⟩⟩
  rw [h.expressionsOf] at hc
  rcases List.mem_append.mp hc with hc | hc
  · exact hsense c hc
  · obtain ⟨c', hc', rfl⟩ := List.mem_map.mp hc
    exact hsense' c' hc'

variable {name filename : Option String} {lenient : Bool}

theorem ofSource_page {s : Source} {tokens : List Token} {ns : List Node} {orphans : List Position}
    (htokens : s.tokens = .ok tokens) (hread : Tree.ofTokens tokens = .ok (.page ns, orphans))
    (hchecked : checkFault? s (.page ns) = none) :
    ofSource s lenient = .ok ⟨s, .page ns, lenient⟩ := by
  have htree : s.tree = .ok (.page ns, orphans.map (s.orphanWarning "")) := by
    unfold Source.tree
    rw [htokens]
    dsimp only
    rw [hread]
    rfl
  unfold ofSource
  rw [htree]
  simp only [bind, Except.bind, hchecked]

theorem ofSource_page_ok {s : Source} {t : Template} (h : ofSource s lenient = .ok t)
    (hpage : t.tree.layout? = none) : ∃ ns tokens orphans, t = ⟨s, .page ns, lenient⟩ ∧
      s.tokens = .ok tokens ∧ Tree.ofTokens tokens = .ok (.page ns, orphans) ∧
      checkFault? s (.page ns) = none := by
  unfold ofSource Source.tree at h
  cases htokens : s.tokens with
  | error e =>
    rw [htokens] at h
    cases h
  | ok tokens =>
    rw [htokens] at h
    dsimp only at h
    cases hread : Tree.ofTokens tokens with
    | error r =>
      rw [hread] at h
      cases h
    | ok read =>
      obtain ⟨tree, orphans⟩ := read
      rw [hread] at h
      simp only [bind, Except.bind] at h
      cases hchecked : checkFault? s tree with
      | some f =>
        rw [hchecked] at h
        cases h
      | none =>
        rw [hchecked] at h
        cases h
        cases tree with
        | extension p layout sections => cases hpage
        | page ns => exact ⟨ns, tokens, orphans, rfl, rfl, hread, hchecked⟩

/-- A page behind the whole lines of another page makes one page with it. -/
theorem ofSource_append {a b : String} (hline : Text.EndsLine a.toList) {ta tb : Template}
    (ha : ofSource ⟨a, name, filename⟩ lenient = .ok ta) (hpage : ta.tree.layout? = none)
    (hb : ofSource ⟨b, name, filename⟩ lenient = .ok tb) (hpage' : tb.tree.layout? = none) :
    ∃ nodes, Node.Joins (Position.below (a.toList.count '\n')) ta.tree.nodes tb.tree.nodes nodes ∧
      ofSource ⟨a ++ b, name, filename⟩ lenient =
        .ok ⟨⟨a ++ b, name, filename⟩, .page nodes, lenient⟩ := by
  obtain ⟨ns, ts, orphans, rfl, hts, hread, hns⟩ := ofSource_page_ok ha hpage
  obtain ⟨ns', us, orphans', rfl, hus, hread', hns'⟩ := ofSource_page_ok hb hpage'
  obtain ⟨found, hfound⟩ := Source.segments_of_tokens hts
  obtain ⟨before, q, s, htokens, -⟩ := Source.tokens_joined hline hfound
  cases htokens.symm.trans hts
  have hjoined := Source.tokens_append hline hfound hts hus
  rw [Token.dropLast_finish, Token.joined_concat] at hjoined
  obtain ⟨nodes, hnodes, hpages⟩ := Tree.ofTokens_joined _ hread hread'
  obtain ⟨hplace, hns⟩ := checkFault?_page.mp hns
  have hproblem := bodyProblem?_joined hnodes hns (checkFault?_page.mp hns').2
  exact ⟨nodes, hnodes, ofSource_page hjoined hpages (checkFault?_page.mpr ⟨hplace, hproblem⟩)⟩

end Template

end Stencil
