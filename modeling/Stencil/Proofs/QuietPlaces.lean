import Stencil.Proofs.LoopPlaces
import Stencil.Proofs.QuietLoops
import Stencil.Proofs.Rounds

/-!
# Where loops are not asked

No two loops of a body are at one position. So if the loop at a position does not mention `loop`, no
code inside of a loop at that position does; and whatever a render of the body has done when it
comes to that loop, it has left no code behind that would ask for it.
-/

namespace Stencil

open Render

open Text (Position)

namespace Node

mutual

/-- The loops of a node, by their positions, with their bodies. -/
def loops : Node → List (Position × List Node)
  | .data _ _ | .output _ _ _ | .yielding _ _ _ | .including _ _ _ => []
  | .conditional _ _ body others otherwise =>
    loopsOf body ++ loopsOfOthers others ++ loopsOf otherwise
  | .loop p _ _ _ body => (p, body) :: loopsOf body
  | .whileLoop _ _ body => loopsOf body

def loopsOf : List Node → List (Position × List Node)
  | [] => []
  | n :: ns => loops n ++ loopsOf ns

def loopsOfOthers : List (Code × List Node) → List (Position × List Node)
  | [] => []
  | o :: os => loopsOfOther o ++ loopsOfOthers os

def loopsOfOther : Code × List Node → List (Position × List Node)
  | (_, body) => loopsOf body

end

mutual

theorem map_loops : ∀ n : Node, n.loops.map Prod.fst = n.loopPlaces
  | .data _ _ | .output _ _ _ | .yielding _ _ _ | .including _ _ _ => rfl
  | .conditional _ _ body others otherwise => by
    rw [loops, loopPlaces, List.map_append, List.map_append, map_loopsOf body,
      map_loopsOfOthers others, map_loopsOf otherwise]
  | .loop p _ _ _ body => congrArg (p :: ·) (map_loopsOf body)
  | .whileLoop _ _ body => map_loopsOf body

theorem map_loopsOf : ∀ ns : List Node, (loopsOf ns).map Prod.fst = loopPlacesOf ns
  | [] => rfl
  | n :: ns => by rw [loopsOf, loopPlacesOf, List.map_append, map_loops n, map_loopsOf ns]

theorem map_loopsOfOthers : ∀ os : List (Code × List Node),
    (loopsOfOthers os).map Prod.fst = loopPlacesOfOthers os
  | [] => rfl
  | o :: os => by
    rw [loopsOfOthers, loopPlacesOfOthers, List.map_append, map_loopsOfOther o,
      map_loopsOfOthers os]

theorem map_loopsOfOther : ∀ o : Code × List Node,
    (loopsOfOther o).map Prod.fst = loopPlacesOfOther o
  | (_, body) => map_loopsOf body

end

theorem body_unique {ns body body' : List Node} {p : Position} (h : (loopPlacesOf ns).Nodup)
    (hbody : (p, body) ∈ loopsOf ns) (hbody' : (p, body') ∈ loopsOf ns) : body' = body := by
  rw [← map_loopsOf] at h
  exact congrArg Prod.snd (List.inj_on_of_nodup_map h hbody' hbody rfl)

theorem loops_subset {n : Node} {ns : List Node} (h : n ∈ ns) : n.loops ⊆ loopsOf ns := by
  induction ns with
  | nil => cases h
  | cons m ns ih =>
    rcases List.mem_cons.mp h with rfl | h
    · exact List.subset_append_left _ _
    · exact List.Subset.trans (ih h) (List.subset_append_right _ _)

theorem loopsOfOther_subset {o : Code × List Node} {os : List (Code × List Node)} (h : o ∈ os) :
    loopsOfOther o ⊆ loopsOfOthers os := by
  induction os with
  | nil => cases h
  | cons m os ih =>
    rcases List.mem_cons.mp h with rfl | h
    · exact List.subset_append_left _ _
    · exact List.Subset.trans (ih h) (List.subset_append_right _ _)

/-- The loops of the bodies of a conditional are loops of the conditional. -/
theorem loops_branch {p : Position} {test : Code} {body otherwise : List Node}
    {others : List (Code × List Node)} {ns ms : List Node}
    (h : .conditional p test body others otherwise ∈ ns)
    (hm : ms = body ∨ ms = otherwise ∨ ∃ t, (t, ms) ∈ others) : loopsOf ms ⊆ loopsOf ns := by
  refine List.Subset.trans ?_ (loops_subset h)
  rw [loops]
  rcases hm with rfl | rfl | ⟨t, ht⟩
  · exact List.Subset.trans (List.subset_append_left _ _) (List.subset_append_left _ _)
  · exact List.subset_append_right _ _
  · refine List.Subset.trans ?_ (List.subset_append_left _ _)
    exact List.Subset.trans (loopsOfOther_subset ht) (List.subset_append_right _ _)

theorem Holds.inside {outer loops' : List LoopScope} {ns : List Node} {e : Expr}
    (h : Node.Holds outer ns loops' e) {l : LoopScope} (hl : l ∈ loops') :
    l ∈ outer ∨ ∃ body, (l.position, body) ∈ loopsOf ns ∧
      ∃ code ∈ expressionsOf body, code.expr.outline.Within e.outline := by
  have hmore {ms ns : List Node} (hsub : loopsOf ms ⊆ loopsOf ns) {outer : List LoopScope}
      {e : Expr} (hms : l ∈ outer ∨ ∃ body, (l.position, body) ∈ loopsOf ms ∧
        ∃ code ∈ expressionsOf body, code.expr.outline.Within e.outline) :
      l ∈ outer ∨ ∃ body, (l.position, body) ∈ loopsOf ns ∧
        ∃ code ∈ expressionsOf body, code.expr.outline.Within e.outline :=
    hms.imp_right fun ⟨body, hbody, hcode⟩ => ⟨body, hsub hbody, hcode⟩
  induction h with
  | shown _ | given _ | test _ | again _ | source _ | target _ _ | otherTest _ _ => exact .inl hl
  | taken h _ ih => exact hmore (loops_branch h (.inl rfl)) (ih hl)
  | otherTaken h ho _ ih => exact hmore (loops_branch h (.inr (.inr ⟨_, ho⟩))) (ih hl)
  | «otherwise» h _ ih => exact hmore (loops_branch h (.inr (.inl rfl))) (ih hl)
  | whilePass h _ ih => exact hmore (loops_subset h) (ih hl)
  | pass h he ih =>
    rcases ih hl with hinner | ⟨body, hbody, hcode⟩
    · rcases List.mem_cons.mp hinner with rfl | houter
      · exact .inr ⟨_, loops_subset h List.mem_cons_self, he.within⟩
      · exact .inl houter
    · exact .inr ⟨body, loops_subset h (List.mem_cons_of_mem _ hbody), hcode⟩

end Node

namespace Render

variable {reach : Reach} {scope₀ scope : Scope} {ns₀ ns : List Node} {w₀ w w₁ : World}
  {rs : List Round}

/-- The later branches of a conditional are a part of it. -/
theorem later_holds {p q : Position} {t t' : Code} {body body' otherwise : List Node}
    {others : List (Code × List Node)} {outer loops : List LoopScope} {e : Expr}
    (h : .conditional p t body ((t', body') :: others) otherwise ∈ ns)
    (he : Node.Holds outer [.conditional q t' body' others otherwise] loops e) :
    Node.Holds outer ns loops e := by
  cases he with
  | test hn =>
    cases List.mem_singleton.mp hn
    exact .otherTest h List.mem_cons_self
  | taken hn he =>
    cases List.mem_singleton.mp hn
    exact .otherTaken h List.mem_cons_self he
  | otherTest hn ho =>
    cases List.mem_singleton.mp hn
    exact .otherTest h (List.mem_cons_of_mem _ ho)
  | otherTaken hn ho he =>
    cases List.mem_singleton.mp hn
    exact .otherTaken h (List.mem_cons_of_mem _ ho) he
  | «otherwise» hn he =>
    cases List.mem_singleton.mp hn
    exact .otherwise h he
  | shown hn | given hn | source hn | target hn | pass hn | again hn | whilePass hn =>
    cases List.mem_singleton.mp hn

theorem later_loops {p q : Position} {t t' : Code} {body body' otherwise : List Node}
    {others : List (Code × List Node)}
    (h : .conditional p t body ((t', body') :: others) otherwise ∈ ns) :
    Node.loopsOf [.conditional q t' body' others otherwise] ⊆ Node.loopsOf ns := by
  refine List.Subset.trans (fun l hl => ?_) (Node.loops_subset h)
  simp only [Node.loopsOf, Node.loops, Node.loopsOfOthers, Node.loopsOfOther, List.append_nil,
    List.mem_append] at hl ⊢
  tauto

structure IsPart (scope₀ : Scope) (ns₀ : List Node) (scope : Scope) (ns : List Node) : Prop where
  eq : ∃ loops, scope = { scope₀ with loops }
  loops : Node.loopsOf ns ⊆ Node.loopsOf ns₀
  holds : ∀ loops e, Node.Holds scope.loops ns loops e → Node.Holds scope₀.loops ns₀ loops e

theorem IsPart.inside {ms : List Node} (h : IsPart scope₀ ns₀ scope ns)
    (hloops : Node.loopsOf ms ⊆ Node.loopsOf ns)
    (hholds : ∀ loops e, Node.Holds scope.loops ms loops e → Node.Holds scope.loops ns loops e) :
    IsPart scope₀ ns₀ scope ms :=
  ⟨h.eq, List.Subset.trans hloops h.loops, fun loops e he => h.holds loops e (hholds loops e he)⟩

theorem At.isPart (h : At reach scope₀ ns₀ w₀ rs scope ns w) : IsPart scope₀ ns₀ scope ns := by
  induction h with
  | start => exact ⟨⟨_, rfl⟩, List.Subset.refl _, fun _ _ => id⟩
  | @behind _ _ n _ _ _ _ _ _ ih =>
    exact ih.inside (List.subset_append_right _ _) fun _ _ he => he.mono fun m hm =>
      List.mem_cons_of_mem n hm
  | taken _ _ ih =>
    exact ih.inside (Node.loops_branch List.mem_cons_self (.inl rfl)) fun _ _ he =>
      .taken List.mem_cons_self he
  | other _ _ ih =>
    exact ih.inside (later_loops List.mem_cons_self) fun _ _ he => later_holds List.mem_cons_self he
  | «otherwise» _ _ ih =>
    exact ih.inside (Node.loops_branch List.mem_cons_self (.inr (.inl rfl))) fun _ _ he =>
      .otherwise List.mem_cons_self he
  | holds _ _ ih =>
    exact ih.inside (Node.loops_subset (n := .whileLoop _ _ _) List.mem_cons_self) fun _ _ he =>
      .whilePass List.mem_cons_self he
  | again _ _ _ ih => exact ih
  | round _ _ _ _ _ ih =>
    refine ⟨?_, fun l hl => ih.loops (Node.loops_subset List.mem_cons_self
      (List.mem_cons_of_mem _ hl)), fun _ _ he => ih.holds _ _ (.pass List.mem_cons_self he)⟩
    obtain ⟨loops, rfl⟩ := ih.eq
    exact ⟨_, rfl⟩

section Twins

variable {l : Leeway} {frames : Array Frame} (hr : Reach.Twin l reach reach)

theorem IsPart.fits (h : IsPart scope₀ ns₀ scope ns) (hf : Node.Fits l false frames scope₀ ns₀)
    (hapart : ¬ l.tally.apart scope₀.frame) : Node.Fits l false frames scope ns := by
  obtain ⟨loops, rfl⟩ := h.eq
  exact ⟨hf.own, fun loops' whole hw => hf.admits loops' whole (h.holds _ _ hw),
    fun ha => absurd ha hapart, nofun, hf.framed⟩

include hr

theorem itemPass_alike {s s' : Scope} (hs : s.Twin l s') {p : Position} {k : LoopKeyword}
    {target source : Code} {body : List Node}
    (hf : Node.Fits l false frames s [.loop p k target source body]) (v : Value) :
    Alike l Same frames (itemPass reach s p target body v) (itemPass reach s' p target body v) := by
  refine .bindSuch (assigned_alike hr hs hf v) fun _ _ hg _ => ?_
  have hinner : (innerScope s p target body).Twin l (innerScope s' p target body) := by
    cases hs with
    | told hmode hloops => exact .told hmode (l.tally.cons _ hloops)
  exact nodes_alike hr body #[] hinner (innerFits (hf.mono hg) nofun nofun)

theorem whilePass_alike {s s' : Scope} (hs : s.Twin l s') {p : Position} {t : Code}
    {body : List Node} (hf : Node.Fits l false frames s [.whileLoop p t body]) :
    Alike l Same frames (whilePass reach s p body) (whilePass reach s' p body) := by
  have hbody := hf.inside (fun _ _ h => .whilePass List.mem_cons_self h) fun _ hc =>
    List.mem_append_left _ (List.mem_cons_of_mem _ hc)
  refine .bind (nodes_alike hr body #[] hs hbody) fun _ out _ => ?_
  exact .bind (.markLine _) fun _ _ _ => .pure out

theorem Passes.kept {p : Position} {k : LoopKeyword} {target source : Code} {body : List Node}
    {it : Value} {i : Nat} (hs : scope.Twin l scope)
    (hf : Node.Fits l false frames scope [.loop p k target source body])
    (h : Passes reach scope p target body it i w w₁) (hw : w.Kept l frames) :
    w₁.Kept l frames := by
  induction h with
  | none => exact hw
  | more _ hi hp ih =>
    have htaken := (ih hw).after (fun _ _ => evaluate_alike hr (hr.ev.next it)) hi
    exact htaken.after (fun _ hg => itemPass_alike hr hs (hf.mono hg) _) hp

/-- A world that is its own twin when a body is begun is so at all places of it. The induction is on
the way there. -/
theorem At.kept (h : At reach scope₀ ns₀ w₀ rs scope ns w)
    (hmode : l.modes scope₀.lenient scope₀.lenient) (hf : Node.Fits l false frames scope₀ ns₀)
    (hapart : ¬ l.tally.apart scope₀.frame) (hw₀ : w₀.Kept l frames) : w.Kept l frames := by
  have hscope {rs : List Round} {scope : Scope} {ns : List Node} {w : World}
      (h : At reach scope₀ ns₀ w₀ rs scope ns w) : scope.Twin l scope := by
    obtain ⟨loops, rfl⟩ := h.isPart.eq
    exact .told (s := { scope₀ with loops }) hmode (l.tally.refl _ _)
  have hfits {rs : List Round} {scope : Scope} {n : Node} {ns : List Node} {w : World}
      (h : At reach scope₀ ns₀ w₀ rs scope (n :: ns) w) : Node.Fits l false frames scope [n] := by
    refine (h.isPart.inside (fun l hl => ?_) fun _ _ he => he.mono fun m hm => ?_).fits hf hapart
    · rw [Node.loopsOf, Node.loopsOf, List.append_nil] at hl
      exact List.mem_append_left _ hl
    · exact List.mem_singleton.mp hm ▸ List.mem_cons_self
  have htest {rs : List Round} {scope : Scope} {n : Node} {ns : List Node} {t : Code}
      {w w₁ : World} {line : Nat} {holds : Bool}
      (h : At reach scope₀ ns₀ w₀ rs scope (n :: ns) w) (hw : w.Kept l frames)
      (he : Node.Holds scope.loops [n] scope.loops t.expr)
      (ht : (test reach scope t).run (w.marked line) = .ok holds w₁) : w₁.Kept l frames :=
    (hw.marked line).after
      (fun _ hg => test_alike hr (hscope h) t (((hfits h).expr he).mono hg)) ht
  induction h with
  | start => exact hw₀
  | behind h hn ih =>
    exact ih.after (fun _ hg => node_alike hr _ (hscope h) ((hfits h).mono hg)) hn
  | taken h ht ih | other h ht ih | «otherwise» h ht ih =>
    exact htest h ih (.test List.mem_cons_self) ht
  | holds h ht ih => exact htest h ih (.again List.mem_cons_self) ht
  | again h ht hp ih =>
    have htested := htest h ih (.again List.mem_cons_self) ht
    exact htested.after (fun _ hg => whilePass_alike hr (hscope h) ((hfits h).mono hg)) hp
  | round h hs hp hi ha ih =>
    have hstarted := (ih.marked _).after
      (fun _ hg => started_alike hr (hscope h) ((hfits h).mono hg)) hs
    have hpassed := hp.kept hr (hscope h) (hfits h) hstarted
    have htaken := hpassed.after (fun _ _ => evaluate_alike hr (hr.ev.next _)) hi
    exact htaken.after (fun _ hg => assigned_alike hr (hscope h) ((hfits h).mono hg) _) ha

end Twins

/-- Where a loop does not mention `loop`, nothing that stands inside of it does. -/
theorem IsPart.silent {p : Position} {k : LoopKeyword} {target source : Code} {body : List Node}
    (h : IsPart scope₀ ns₀ scope (.loop p k target source body :: ns))
    (hapart : (Node.loopPlacesOf ns₀).Nodup) (hbody : Node.mention "loop" body = false)
    {loops : List LoopScope} {whole e : Expr} {context : List Shade}
    (hw : Node.Holds [] ns₀ loops whole) (he : Expr.Holds [] whole context e)
    (hl : ∃ l ∈ loops, l.position = p) : e ≠ .name "loop" := by
  rintro rfl
  obtain ⟨l, hl, rfl⟩ := hl
  obtain houter | ⟨body', hbody', code, hcode, hwithin⟩ := hw.inside hl
  · cases houter
  · have hunique := Node.body_unique hapart (h.loops List.mem_cons_self) hbody'
    have hmention : Node.mention "loop" body = true := List.any_eq_true.mpr
      ⟨code, hunique ▸ hcode, Expr.mentions_of_within (hwithin.trans he.within)⟩
    exact Bool.false_ne_true (hbody.symm.trans hmention)

end Render

end Stencil
