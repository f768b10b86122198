import Stencil.Token

/-!
# The block grammar

A page is a sequence of texts, interpolations, places, inclusions and blocks; a block is opened,
holds pages and is closed by its own closer, and a conditional may have branches. Reading tokens
one by one against a stack of what is open comes to the same: the stack can be emptied by some
tokens if and only if these complete the blocks on it.
-/

namespace Stencil

namespace Token

def Is (t : Token) (k : Keyword) : Prop := ∃ arguments, t.kind = .directive k arguments

def IsLeaf (t : Token) : Prop :=
  (∃ s, t.kind = .data s ∨ t.kind = .output s ∨ t.kind = .rawOutput s) ∨
    t.Is .yielding ∨ t.Is .including

end Token

namespace Grammar

def IsLoop (b : Block) : Prop := b = .foreachBlock ∨ b = .forBlock ∨ b = .whileBlock

mutual

inductive Body : List Token → Prop
  | nil : Body []
  | cons {item rest : List Token} (hitem : Item item) (hrest : Body rest) : Body (item ++ rest)

inductive Item : List Token → Prop
  | leaf {t : Token} (ht : t.IsLeaf) : Item [t]
  | conditional {opener closer : Token} {body branches last : List Token}
      (hopener : opener.Is (.opening .ifBlock)) (hbody : Body body) (hbranches : Branches branches)
      (hlast : LastBranch last) (hcloser : closer.Is (.closing .ifBlock)) :
      Item (opener :: (body ++ (branches ++ (last ++ [closer]))))
  | loop {b : Block} {opener closer : Token} {body : List Token} (hb : IsLoop b)
      (hopener : opener.Is (.opening b)) (hbody : Body body) (hcloser : closer.Is (.closing b)) :
      Item (opener :: (body ++ [closer]))

inductive Branches : List Token → Prop
  | nil : Branches []
  | cons {t : Token} {body rest : List Token} (ht : t.Is .elseIf) (hbody : Body body)
      (hrest : Branches rest) : Branches (t :: (body ++ rest))

inductive LastBranch : List Token → Prop
  | none : LastBranch []
  | some {t : Token} {body : List Token} (ht : t.Is .otherwise) (hbody : Body body) :
      LastBranch (t :: body)

end

/-- An open block: one with a single body, a conditional that may go on to another branch, or a
conditional in its last branch. -/
inductive Stage
  | single (b : Block)
  | branch
  | last
deriving DecidableEq, Repr

def Stage.block : Stage → Block
  | single b => b
  | branch | last => .ifBlock

/-- The stage in which a block begins. -/
def Stage.first : Block → Stage
  | .ifBlock => .branch
  | b => .single b

/-- What a token does to the open blocks, innermost first. -/
inductive Moves : List Stage → Token → List Stage → Prop
  | leaf {stages : List Stage} {t : Token} (ht : t.IsLeaf) : Moves stages t stages
  | enter {stages : List Stage} {t : Token} {b : Block} (hb : b ≠ .sectionBlock)
      (ht : t.Is (.opening b)) : Moves stages t (.first b :: stages)
  | branch {stages : List Stage} {t : Token} (ht : t.Is .elseIf) :
      Moves (.branch :: stages) t (.branch :: stages)
  | last {stages : List Stage} {t : Token} (ht : t.Is .otherwise) :
      Moves (.branch :: stages) t (.last :: stages)
  | close {stage : Stage} {stages : List Stage} {t : Token} (ht : t.Is (.closing stage.block)) :
      Moves (stage :: stages) t stages

inductive Runs : List Stage → List Token → List Stage → Prop
  | nil (stages : List Stage) : Runs stages [] stages
  | cons {stages next after : List Stage} {t : Token} {ts : List Token}
      (hstep : Moves stages t next) (hrest : Runs next ts after) : Runs stages (t :: ts) after

/-- The tokens complete the open blocks from the innermost one outwards. -/
inductive Completes : List Stage → List Token → Prop
  | top {ts : List Token} (hbody : Body ts) : Completes [] ts
  | single {b : Block} {stages : List Stage} {body rest : List Token} {closer : Token}
      (hbody : Body body) (hcloser : closer.Is (.closing b)) (hrest : Completes stages rest) :
      Completes (.single b :: stages) (body ++ closer :: rest)
  | branch {stages : List Stage} {body branches last rest : List Token} {closer : Token}
      (hbody : Body body) (hbranches : Branches branches) (hlast : LastBranch last)
      (hcloser : closer.Is (.closing .ifBlock)) (hrest : Completes stages rest) :
      Completes (.branch :: stages) (body ++ (branches ++ (last ++ closer :: rest)))
  | last {stages : List Stage} {body rest : List Token} {closer : Token} (hbody : Body body)
      (hcloser : closer.Is (.closing .ifBlock)) (hrest : Completes stages rest) :
      Completes (.last :: stages) (body ++ closer :: rest)

theorem Completes.item {item rest : List Token} {stages : List Stage} (hitem : Item item)
    (h : Completes stages rest) : Completes stages (item ++ rest) := by
  cases h with
  | top hbody => exact .top (.cons hitem hbody)
  | single hbody hcloser hrest =>
    rw [← List.append_assoc]
    exact .single (.cons hitem hbody) hcloser hrest
  | branch hbody hbranches hlast hcloser hrest =>
    rw [← List.append_assoc]
    exact .branch (.cons hitem hbody) hbranches hlast hcloser hrest
  | last hbody hcloser hrest =>
    rw [← List.append_assoc]
    exact .last (.cons hitem hbody) hcloser hrest

theorem Completes.enter {b : Block} {opener : Token} {ts : List Token} {stages : List Stage}
    (hb : b ≠ .sectionBlock) (hopener : opener.Is (.opening b))
    (h : Completes (.first b :: stages) ts) : Completes stages (opener :: ts) := by
  have hloop {b : Block} (hb : IsLoop b) (hopener : opener.Is (.opening b))
      (h : Completes (.single b :: stages) ts) : Completes stages (opener :: ts) := by
    cases h with
    | @single _ _ body rest closer hbody hcloser hrest =>
      simpa using hrest.item (.loop hb hopener hbody hcloser)
  cases b with
  | sectionBlock => exact absurd rfl hb
  | ifBlock =>
    cases h with
    | branch hbody hbranches hlast hcloser hrest =>
      simpa using hrest.item (.conditional hopener hbody hbranches hlast hcloser)
  | foreachBlock => exact hloop (.inl rfl) hopener h
  | forBlock => exact hloop (.inr (.inl rfl)) hopener h
  | whileBlock => exact hloop (.inr (.inr rfl)) hopener h

theorem Completes.elseIf {t : Token} {ts : List Token} {stages : List Stage} (ht : t.Is .elseIf)
    (h : Completes (.branch :: stages) ts) : Completes (.branch :: stages) (t :: ts) := by
  cases h with
  | branch hbody hbranches hlast hcloser hrest =>
    simpa using Completes.branch .nil (.cons ht hbody hbranches) hlast hcloser hrest

theorem Completes.otherwise {t : Token} {ts : List Token} {stages : List Stage}
    (ht : t.Is .otherwise) (h : Completes (.last :: stages) ts) :
    Completes (.branch :: stages) (t :: ts) := by
  cases h with
  | last hbody hcloser hrest =>
    simpa using Completes.branch .nil .nil (.some ht hbody) hcloser hrest

theorem Completes.close {stage : Stage} {t : Token} {ts : List Token} {stages : List Stage}
    (ht : t.Is (.closing stage.block)) (h : Completes stages ts) :
    Completes (stage :: stages) (t :: ts) := by
  cases stage with
  | single b => exact .single .nil ht h
  | branch => exact .branch .nil .nil .none ht h
  | last => exact .last .nil ht h

/-- A run that closes everything completes what was open where it began. -/
theorem Runs.completes {stages : List Stage} {ts : List Token} (h : Runs stages ts []) :
    Completes stages ts := by
  generalize hend : [] = after at h
  induction h with
  | nil stages =>
    subst hend
    exact .top .nil
  | cons hstep hrest ih =>
    have hcompletes := ih hend
    cases hstep with
    | leaf ht => exact hcompletes.item (.leaf ht)
    | enter hb ht => exact hcompletes.enter hb ht
    | branch ht => exact hcompletes.elseIf ht
    | last ht => exact hcompletes.otherwise ht
    | close ht => exact hcompletes.close ht

theorem Runs.append {stages next after : List Stage} {ts us : List Token}
    (h : Runs stages ts next) (h' : Runs next us after) : Runs stages (ts ++ us) after := by
  induction h with
  | nil stages => exact h'
  | cons hstep hrest ih => exact .cons hstep (ih h')

theorem Runs.single {stages next : List Stage} {t : Token} (h : Moves stages t next) :
    Runs stages [t] next := .cons h (.nil next)

theorem IsLoop.first {b : Block} (h : IsLoop b) : Stage.first b = .single b := by
  rcases h with rfl | rfl | rfl <;> rfl

theorem IsLoop.ne_section {b : Block} (h : IsLoop b) : b ≠ .sectionBlock := by
  rcases h with rfl | rfl | rfl <;> nofun

mutual

theorem Body.runs : ∀ {ts : List Token}, Body ts → ∀ stages, Runs stages ts stages
  | _, .nil, _ => .nil _
  | _, .cons hitem hrest, stages => (hitem.runs stages).append (hrest.runs stages)

theorem Item.runs : ∀ {ts : List Token}, Item ts → ∀ stages, Runs stages ts stages
  | _, .leaf ht, _ => .single (.leaf ht)
  | _, .conditional hopener hbody hbranches hlast hcloser, stages => by
    obtain ⟨stage, hstage, hruns⟩ := hlast.runs stages
    have hclose : Runs (stage :: stages) [_] stages := .single (.close (hstage ▸ hcloser))
    exact .cons (.enter (b := .ifBlock) (by decide) hopener) ((hbody.runs _).append
      ((hbranches.runs stages).append (hruns.append hclose)))
  | _, .loop hb hopener hbody hcloser, stages => by
    have henter : Moves stages _ (.first _ :: stages) := .enter hb.ne_section hopener
    rw [hb.first] at henter
    exact .cons henter ((hbody.runs _).append (.single (.close hcloser)))

theorem Branches.runs : ∀ {ts : List Token}, Branches ts → ∀ stages : List Stage,
    Runs (.branch :: stages) ts (.branch :: stages)
  | _, .nil, _ => .nil _
  | _, .cons ht hbody hrest, stages =>
    .cons (.branch ht) ((hbody.runs _).append (hrest.runs stages))

theorem LastBranch.runs : ∀ {ts : List Token}, LastBranch ts → ∀ stages : List Stage,
    ∃ stage : Stage, stage.block = .ifBlock ∧ Runs (.branch :: stages) ts (stage :: stages)
  | _, .none, _ => ⟨.branch, rfl, .nil _⟩
  | _, .some ht hbody, _ => ⟨.last, rfl, .cons (.last ht) (hbody.runs _)⟩

end

theorem runs_iff_body {ts : List Token} : Runs [] ts [] ↔ Body ts := by
  constructor
  · intro h
    cases h.completes with
    | top hbody => exact hbody
  · exact fun h => h.runs []

end Grammar

end Stencil
