import Stencil.Proofs.Reading

/-!
# What a render emits

The pieces of an output are emitted by leaves: literal text, interpolations and places without
a section. So a property that every leaf keeps, of all templates that can be reached, is had by
every piece of every output, whatever loops, branches, partials, layouts and sections it went
through.
-/

namespace Stencil

variable {α β : Type}

namespace Action

def Ensures (x : Action α) (Q : α → Prop) : Prop := ∀ w a w₁, x.run w = .ok a w₁ → Q a

namespace Ensures

variable {x : Action α} {Q : α → Prop}

theorem pure {a : α} (h : Q a) : Ensures (Pure.pure a) Q := by
  rintro w a' w₁ hrun
  cases hrun
  exact h

theorem throw (s : Stop) : Ensures (MonadExcept.throw s : Action α) Q := by
  rintro w a w₁ hrun
  cases hrun

theorem bind_of_run {f : α → Action β} {Q : β → Prop}
    (hf : ∀ a w w₁, x.run w = .ok a w₁ → Ensures (f a) Q) : Ensures (x >>= f) Q := by
  intro w b w₂ hrun
  obtain ⟨a, w₁, hx, hrest⟩ := bind_ok hrun
  exact hf a w w₁ hx w₁ b w₂ hrest

theorem bind {f : α → Action β} {R : β → Prop} (hx : x.Ensures Q)
    (hf : ∀ a, Q a → Ensures (f a) R) : Ensures (x >>= f) R :=
  bind_of_run fun a w w₁ hrun => hf a (hx w a w₁ hrun)

theorem seq {f : α → Action β} {R : β → Prop} (hf : ∀ a, Ensures (f a) R) :
    Ensures (x >>= f) R :=
  bind_of_run fun a _ _ _ => hf a

theorem within (hx : x.Ensures Q) (b : Boundary) : Ensures (Action.within b x) Q := by
  intro w a w₁ hrun
  change Action.within b x w = .ok a w₁ at hrun
  unfold Action.within at hrun
  split at hrun
  · rename_i w' hx'
    cases hrun
    exact hx _ _ _ hx'
  · cases hrun

end Ensures

end Action

/-- Every piece is as `P` says. -/
def Output.All (P : Piece → Prop) (out : Output) : Prop := ∀ p ∈ out, P p

namespace Output

variable {P : Piece → Prop}

theorem all_empty : All P #[] := fun p hp => absurd hp (Array.not_mem_empty p)

theorem All.append {out out' : Output} (h : All P out) (h' : All P out') :
    All P (out ++ out') := by
  intro p hp
  rcases Array.mem_append.mp hp with hp | hp
  · exact h p hp
  · exact h' p hp

theorem all_singleton {p : Piece} (h : P p) : All P #[p] := by
  intro p' hp'
  rw [Array.mem_singleton.mp hp']
  exact h

end Output

/-- The text of a value that the code has in some scope and some state. -/
def Code.Shows (ev : Evaluator) (code : Code) (s : String) : Prop :=
  ∃ scope calls heap v heap₁,
    (ev.eval scope code.expr).run calls heap = .ok v heap₁ ∧ v.outputText heap₁ = .ok s

def Node.Permits (ev : Evaluator) (P : Piece → Prop) : Node → Prop
  | .data _ s => P (.literal s)
  | .output _ code escaped => ∀ s, code.Shows ev s → P (if escaped then .escaped s else .raw s)
  | .yielding _ _ default => P (.fallback default)
  | _ => True

namespace Render

variable {P : Piece → Prop} {reach : Reach}

/-- Other templates emit nothing but what `P` allows. -/
structure Reach.Emits (P : Piece → Prop) (reach : Reach) : Prop where
  yielding : ∀ name fallback, P (.fallback fallback) →
    (reach.yielding name fallback).Ensures (Output.All P)
  including : ∀ name v, (reach.including name v).Ensures (Output.All P)

theorem evalCode_ok {scope : Scope} {code : Code} {v : Value} {w w₁ : World}
    (h : (evalCode reach scope code).run w = .ok v w₁) :
    (reach.ev.eval scope code.expr).run reach.calls w.heap = .ok v w₁.heap := by
  change Action.evaluateUnder _ _ w = .ok v w₁ at h
  unfold Action.evaluateUnder at h
  split at h
  · rename_i heap heq
    cases h
    exact heq
  · cases h

theorem textOf_ok {v : Value} {s : String} {w w₁ : World}
    (h : (textOf v).run w = .ok s w₁) : v.outputText w.heap = .ok s := by
  obtain ⟨heap, w', hheap, h⟩ := Action.bind_ok h
  cases hheap
  unfold Action.ofExcept at h
  cases htext : v.outputText w.heap with
  | ok s' =>
    rw [htext] at h
    cases h
    rfl
  | error f =>
    rw [htext] at h
    cases h

theorem eachItem_emits (it : Value) {f : Value → Action Output}
    (hf : ∀ v, (f v).Ensures (Output.All P)) (fuel : Nat) {out : Output} (ho : out.All P) :
    (eachItem reach it f fuel out).Ensures (Output.All P) := by
  induction fuel generalizing out with
  | zero => exact .throw _
  | succ fuel ih =>
    unfold eachItem
    refine .seq fun next => ?_
    cases next with
    | none => exact .pure ho
    | some v => exact .bind (hf v) fun more hmore => ih (ho.append hmore)

theorem whileTrue_emits (again : Action Bool) {x : Action Output}
    (hx : x.Ensures (Output.All P)) (fuel : Nat) {out : Output} (ho : out.All P) :
    (whileTrue again x fuel out).Ensures (Output.All P) := by
  induction fuel generalizing out with
  | zero => exact .throw _
  | succ fuel ih =>
    unfold whileTrue
    refine .seq fun go => ?_
    cases go with
    | false => exact .pure ho
    | true => exact .bind hx fun more hmore => ih (ho.append hmore)

mutual

theorem node_emits (hr : reach.Emits P) (scope : Scope) :
    ∀ x : Node, (∀ l ∈ x.leaves, l.Permits reach.ev P) →
      (node reach scope x).Ensures (Output.All P)
  | .data p s, hx => .pure (Output.all_singleton (hx _ List.mem_cons_self))
  | .output p code escaped, hx => by
    intro w out w₄ hrun
    obtain ⟨_, w₁, _, hrun⟩ := Action.bind_ok hrun
    obtain ⟨v, w₂, heval, hrun⟩ := Action.bind_ok hrun
    obtain ⟨s, w₃, htext, hrun⟩ := Action.bind_ok hrun
    cases hrun
    have hshows : code.Shows reach.ev s :=
      ⟨scope, _, _, v, _, evalCode_ok heval, textOf_ok htext⟩
    exact Output.all_singleton (hx _ List.mem_cons_self s hshows)
  | .yielding p name default, hx => by
    unfold node
    exact .seq fun _ => hr.yielding name default (hx _ List.mem_cons_self)
  | .including p name data, hx => by
    unfold node
    refine .seq fun _ => ?_
    cases data with
    | none => exact .seq fun v => hr.including name v
    | some code => exact .seq fun v => hr.including name v
  | .conditional p t body others otherwise, hx => by
    unfold node
    simp only [Node.leaves, List.mem_append] at hx
    refine .seq fun _ => .seq fun holds => ?_
    cases holds with
    | true => exact nodes_emits hr scope body (fun l hl => hx l (.inl (.inl hl))) Output.all_empty
    | false =>
      exact branches_emits hr scope
        (nodes_emits hr scope otherwise (fun l hl => hx l (.inr hl)) Output.all_empty) others
        fun l hl => hx l (.inl (.inr hl))
  | .loop p _ target source body, hx => by
    unfold node
    refine .seq fun _ => .seq fun v => .seq fun it =>
      eachItem_emits it (fun v => ?_) _ Output.all_empty
    exact .seq fun _ => nodes_emits hr _ body hx Output.all_empty
  | .whileLoop p t body, hx => by
    unfold node
    refine .seq fun _ => whileTrue_emits _ ?_ _ Output.all_empty
    exact .bind (nodes_emits hr scope body hx Output.all_empty) fun out hout =>
      .seq fun _ => .pure hout

theorem nodes_emits (hr : reach.Emits P) (scope : Scope) :
    ∀ ns : List Node, (∀ l ∈ Node.leavesOf ns, l.Permits reach.ev P) →
      ∀ {out : Output}, out.All P → (nodes reach scope out ns).Ensures (Output.All P)
  | [], _, _, ho => .pure ho
  | x :: ns, hns, _, ho => by
    simp only [Node.leavesOf, List.mem_append] at hns
    unfold nodes
    exact .bind (node_emits hr scope x fun l hl => hns l (.inl hl)) fun more hmore =>
      nodes_emits hr scope ns (fun l hl => hns l (.inr hl)) (ho.append hmore)

theorem branches_emits (hr : reach.Emits P) (scope : Scope) {otherwise : Action Output}
    (ho : otherwise.Ensures (Output.All P)) :
    ∀ bs : List (Code × List Node), (∀ l ∈ Node.leavesOfOthers bs, l.Permits reach.ev P) →
      (branches reach scope otherwise bs).Ensures (Output.All P)
  | [], _ => ho
  | b :: bs, hbs => by
    simp only [Node.leavesOfOthers, List.mem_append] at hbs
    unfold branches
    refine .bind (branch_emits hr scope b fun l hl => hbs l (.inl hl)) fun taken htaken => ?_
    cases taken with
    | none => exact branches_emits hr scope ho bs fun l hl => hbs l (.inr hl)
    | some out => exact .pure (htaken out rfl)

theorem branch_emits (hr : reach.Emits P) (scope : Scope) :
    ∀ b : Code × List Node, (∀ l ∈ Node.leavesOfOther b, l.Permits reach.ev P) →
      (branch reach scope b).Ensures fun taken => ∀ out, taken = some out → out.All P
  | (t, body), hb => by
    unfold branch
    refine .seq fun _ => .seq fun holds => ?_
    cases holds with
    | true =>
      refine .bind (nodes_emits hr scope body hb Output.all_empty) fun out hout => .pure ?_
      intro out' htaken
      cases htaken
      exact hout
    | false => exact .pure nofun

end

end Render

def Sections.From (K : Template → Prop) (sections : Sections) : Prop :=
  ∀ x ∈ sections, K x.2.owner ∧ x.2.body ∈ x.2.owner.tree.bodies

namespace Sections

variable {K : Template → Prop}

theorem from_nil : From K [] := fun _ hx => absurd hx List.not_mem_nil

theorem From.lookup {s : Sections} (h : s.From K) {name : String} {b : BoundSection}
    (hb : s.lookup name = some b) : K b.owner ∧ b.body ∈ b.owner.tree.bodies := by
  obtain ⟨before, after, hs, _⟩ := List.lookup_eq_some_iff.mp hb
  exact h (name, b) (by simp [hs])

theorem From.put {t : Template} {s : Sections} (h : s.From K) (ht : K t) {x : Section × Nat}
    (hx : x.1.body ∈ t.tree.bodies) : (s.put t x).From K := by
  unfold Sections.put
  split
  · exact h
  · intro y hy
    rcases List.mem_append.mp hy with hy | hy
    · exact h y hy
    · rw [List.mem_singleton.mp hy]
      exact ⟨ht, hx⟩

theorem From.foldl_put {t : Template} (ht : K t) (l : List (Section × Nat))
    (hl : ∀ x ∈ l, x.1.body ∈ t.tree.bodies) {s : Sections} (h : s.From K) :
    (l.foldl (Sections.put t) s).From K := by
  induction l generalizing s with
  | nil => exact h
  | cons x l ih =>
    exact ih (fun y hy => hl y (List.mem_cons_of_mem x hy)) (h.put ht (hl x List.mem_cons_self))

theorem From.register {t : Template} {s : Sections} (h : s.From K) (ht : K t) :
    (s.register t).From K := by
  refine From.foldl_put ht _ (fun x hx => ?_) h
  have hsection : x.1 ∈ t.tree.sections := List.fst_mem_of_mem_zipIdx hx
  cases htree : t.tree with
  | page ns =>
    rw [htree] at hsection
    exact absurd hsection List.not_mem_nil
  | extension position layout own =>
    rw [htree] at hsection
    exact List.mem_map_of_mem hsection

end Sections

/-- Templates of `K` lead to templates of `K` only, and their leaves emit what `P` allows. -/
structure Confined (env : Environment) (ev : Evaluator) (K : Template → Prop)
    (P : Piece → Prop) : Prop where
  loaded : ∀ calls name u w w₁, (env.loadUnder calls name).run w = .ok u w₁ → K u
  leaves : ∀ u, K u → ∀ body ∈ u.tree.bodies, ∀ l ∈ Node.leavesOf body, l.Permits ev P

namespace Render

variable {env : Environment} {ev : Evaluator} {K : Template → Prop} {P : Piece → Prop}
  {again : Part → Ref → Sections → Action Output}

theorem yieldTo_emits {sections : Sections} (hs : sections.From K) (data : Ref)
    (ha : ∀ s : BoundSection, K s.owner → s.body ∈ s.owner.tree.bodies →
      (again (.sectionBody s) data sections).Ensures (Output.All P))
    (name fallback : String) (hP : P (.fallback fallback)) :
    (yieldTo again data sections name fallback).Ensures (Output.All P) := by
  unfold yieldTo
  cases hlookup : sections.lookup name with
  | none => exact .pure (Output.all_singleton hP)
  | some s =>
    obtain ⟨howner, hbody⟩ := hs.lookup hlookup
    exact .seq fun here => (ha s howner hbody).within _

theorem includePartial_emits (hc : Confined env ev K P) (calls : Nat)
    (ha : ∀ t data, K t → (again (.whole t) data []).Ensures (Output.All P))
    (name : String) (v : Value) :
    (includePartial env calls again name v).Ensures (Output.All P) := by
  unfold includePartial
  split
  · unfold includeFrom
    refine .seq fun here => .seq fun _ => .bind_of_run fun t w w₁ hload => ?_
    exact .seq fun _ => .seq fun data => (ha t data (hc.loaded _ _ t w w₁ hload)).within _
  · exact .throw _

theorem extend_emits (hc : Confined env ev K P) (calls : Nat) (name : String) (data : Ref)
    (sections : Sections)
    (ha : ∀ t, K t → (again (.whole t) data sections).Ensures (Output.All P)) :
    (extend env calls again name data sections).Ensures (Output.All P) := by
  unfold extend extendFrom
  refine .seq fun here => .seq fun _ => .seq fun _ => .bind_of_run fun t w w₁ hload => ?_
  exact (ha t (hc.loaded _ _ t w w₁ hload)).within _

theorem body_emits {reach : Reach} (hr : reach.Emits P) (t : Template) (path : String)
    (data : Ref) (ns : List Node) (hns : ∀ l ∈ Node.leavesOf ns, l.Permits reach.ev P) :
    (body reach t path data ns).Ensures (Output.All P) :=
  .seq fun _ => nodes_emits hr _ ns hns Output.all_empty

/-- However deep boundaries are nested, templates of `K` emit only what `P` allows. -/
theorem part_emits (hc : Confined env ev K P) (n : Nat) :
    (∀ s data sections, K s.owner → s.body ∈ s.owner.tree.bodies → sections.From K →
      (part env ev n (.sectionBody s) data sections).Ensures (Output.All P)) ∧
    ∀ t data sections, K t → sections.From K →
      (part env ev n (.whole t) data sections).Ensures (Output.All P) := by
  induction n with
  | zero => exact ⟨fun _ _ _ _ _ _ => .throw _, fun _ _ _ _ _ => .throw _⟩
  | succ n ih =>
    obtain ⟨ihSection, ihWhole⟩ := ih
    have haround (data : Ref) (sections : Sections) (hs : sections.From K) :
        (around env ev (env.host.calls n) (part env ev n) data sections).Emits P :=
      ⟨yieldTo_emits hs data fun s howner hbody => ihSection s data sections howner hbody hs,
        includePartial_emits hc _ fun t data ht => ihWhole t data [] ht Sections.from_nil⟩
    constructor
    · intro s data sections howner hbody hs
      unfold part
      exact body_emits (haround data sections hs) _ _ _ _ (hc.leaves _ howner _ hbody)
    · intro t data sections ht hs
      cases htree : t.tree with
      | page ns =>
        rw [part_page env ev n htree]
        refine body_emits (haround data sections hs) _ _ _ _ (hc.leaves t ht ns ?_)
        rw [htree]
        exact List.mem_singleton_self ns
      | extension position layout own =>
        rw [part_extension env ev n htree]
        exact .seq fun _ => extend_emits hc _ layout data _ fun u hu =>
          ihWhole u data _ hu (hs.register ht)

end Render

end Stencil
