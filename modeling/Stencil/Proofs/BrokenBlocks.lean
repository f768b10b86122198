import Stencil.Proofs.Readback
import Stencil.Proofs.Rejections

/-!
# Where block structure breaks

Tokens with valid arguments that make no page are refused at the first of them that no page can
begin with, or, if a page can begin with all of them, at the opener of the innermost block they
leave open. What is told of the place is what the tokens in front of it leave open.
-/

namespace Stencil

open Text (Position)

namespace Grammar

def IsBeginning (ts : List Token) : Prop :=
  ∃ more : List Token, (∀ t ∈ more, t.IsSound) ∧ Body (ts ++ more)

/-- `opener` opens the innermost block that the tokens leave open: one closer behind them would
complete what it begins. -/
def Innermost (ts : List Token) (opener : Token) (b : Block) : Prop :=
  opener.Is (.opening b) ∧ ∃ outer inner, ts = outer ++ opener :: inner ∧
    ∀ closer : Token, closer.Is (.closing b) → Item (opener :: (inner ++ [closer]))

/-- What may stand behind the opener of a block that is open. -/
inductive Interior : Stage → List Token → Prop
  | single {b : Block} {body : List Token} (hb : IsLoop b) (hbody : Body body) :
      Interior (.single b) body
  | branch {body branches : List Token} (hbody : Body body) (hbranches : Branches branches) :
      Interior .branch (body ++ branches)
  | last {t : Token} {body branches otherwise : List Token} (hbody : Body body)
      (hbranches : Branches branches) (ht : t.Is .otherwise) (hotherwise : Body otherwise) :
      Interior .last (body ++ (branches ++ t :: otherwise))

/-- The tokens leave these blocks open, each with its opener, innermost first. -/
inductive Leaves : List Token → List (Token × Stage) → Prop
  | nothing {ts : List Token} (hbody : Body ts) : Leaves ts []
  | block {outer inner : List Token} {opened : List (Token × Stage)} {opener : Token}
      {stage : Stage} (houter : Leaves outer opened) (hopener : opener.Is (.opening stage.block))
      (hinner : Interior stage inner) : Leaves (outer ++ opener :: inner) ((opener, stage) :: opened)

section

variable {stage : Stage} {ts us : List Token} {t opener closer : Token}

theorem Body.append : ∀ {ts : List Token}, Body ts → Body us → Body (ts ++ us)
  | _, .nil, hus => hus
  | _, .cons hitem hrest, hus => by
    rw [List.append_assoc]
    exact .cons hitem (hrest.append hus)

theorem Item.body (h : Item us) : Body us := by
  simpa using Body.cons h .nil

theorem Branches.item : ∀ {ts : List Token}, Branches ts → ts ≠ [] → Item us →
    Branches (ts ++ us)
  | _, .nil, hts, _ => absurd rfl hts
  | _, @Branches.cons _ _ rest ht hbody hrest, _, hitem => by
    by_cases hne : rest = []
    · subst hne
      simpa using Branches.cons ht (hbody.append hitem.body) .nil
    · simpa using Branches.cons ht hbody (hrest.item hne hitem)

theorem Branches.concat : ∀ {ts : List Token}, Branches ts → t.Is .elseIf → Branches (ts ++ [t])
  | _, .nil, ht => .cons ht .nil .nil
  | _, .cons hu hbody hrest, ht => by
    simpa using Branches.cons hu hbody (hrest.concat ht)

theorem Interior.item (h : Interior stage ts) (hitem : Item us) : Interior stage (ts ++ us) := by
  cases h with
  | single hb hbody => exact .single hb (hbody.append hitem.body)
  | @branch body branches hbody hbranches =>
    rcases List.eq_nil_or_concat branches with rfl | ⟨vs, v, rfl⟩
    · simpa using Interior.branch (hbody.append hitem.body) .nil
    · rw [List.append_assoc]
      exact .branch hbody (hbranches.item (by simp) hitem)
  | last hbody hbranches ht hotherwise =>
    simpa using Interior.last hbody hbranches ht (hotherwise.append hitem.body)

theorem Interior.elseIf (h : Interior .branch ts) (ht : t.Is .elseIf) :
    Interior .branch (ts ++ [t]) := by
  cases h with
  | branch hbody hbranches =>
    rw [List.append_assoc]
    exact .branch hbody (hbranches.concat ht)

theorem Interior.otherwise (h : Interior .branch ts) (ht : t.Is .otherwise) :
    Interior .last (ts ++ [t]) := by
  cases h with
  | branch hbody hbranches =>
    rw [List.append_assoc]
    exact .last hbody hbranches ht .nil

theorem Interior.closed (h : Interior stage ts) (hopener : opener.Is (.opening stage.block))
    (hcloser : closer.Is (.closing stage.block)) : Item (opener :: (ts ++ [closer])) := by
  cases h with
  | single hb hbody => exact .loop hb hopener hbody hcloser
  | branch hbody hbranches =>
    simpa using Item.conditional hopener hbody hbranches .none hcloser
  | last hbody hbranches ht hotherwise =>
    simpa using Item.conditional hopener hbody hbranches (.some ht hotherwise) hcloser

theorem Interior.first {b : Block} (hb : b ≠ .sectionBlock) : Interior (.first b) [] := by
  cases b with
  | sectionBlock => exact absurd rfl hb
  | ifBlock => exact .branch .nil .nil
  | foreachBlock => exact .single (.inl rfl) .nil
  | forBlock => exact .single (.inr (.inl rfl)) .nil
  | whileBlock => exact .single (.inr (.inr rfl)) .nil

end

section

variable {ts us : List Token} {opened : List (Token × Stage)} {opener t : Token} {stage : Stage}

theorem Leaves.item (h : Leaves ts opened) (hitem : Item us) : Leaves (ts ++ us) opened := by
  cases h with
  | nothing hbody => exact .nothing (hbody.append hitem.body)
  | block houter hopener hinner =>
    rw [List.append_assoc]
    exact .block houter hopener (hinner.item hitem)

theorem Leaves.elseIf (h : Leaves ts ((opener, .branch) :: opened)) (ht : t.Is .elseIf) :
    Leaves (ts ++ [t]) ((opener, .branch) :: opened) := by
  cases h with
  | block houter hopener hinner =>
    rw [List.append_assoc]
    exact .block houter hopener (hinner.elseIf ht)

theorem Leaves.otherwise (h : Leaves ts ((opener, .branch) :: opened)) (ht : t.Is .otherwise) :
    Leaves (ts ++ [t]) ((opener, .last) :: opened) := by
  cases h with
  | block houter hopener hinner =>
    rw [List.append_assoc]
    exact .block houter hopener (hinner.otherwise ht)

/-- A closer completes the innermost block to an item of what is around it. -/
theorem Leaves.close (h : Leaves ts ((opener, stage) :: opened))
    (ht : t.Is (.closing stage.block)) : Leaves (ts ++ [t]) opened := by
  cases h with
  | block houter hopener hinner =>
    rw [List.append_assoc]
    exact houter.item (hinner.closed hopener ht)

theorem Leaves.body (h : Leaves ts []) : Body ts := by
  cases h with
  | nothing hbody => exact hbody

theorem Leaves.innermost (h : Leaves ts ((opener, stage) :: opened)) :
    Innermost ts opener stage.block := by
  cases h with
  | block houter hopener hinner =>
    exact ⟨hopener, _, _, rfl, fun closer hcloser => hinner.closed hopener hcloser⟩

end

theorem Runs.split {stages after : List Stage} {ts us : List Token}
    (h : Runs stages (ts ++ us) after) : ∃ next, Runs stages ts next ∧ Runs next us after := by
  induction ts generalizing stages with
  | nil => exact ⟨stages, .nil _, h⟩
  | cons t ts ih =>
    cases h with
    | cons hstep hrest =>
      obtain ⟨next, hts, hus⟩ := ih hrest
      exact ⟨next, .cons hstep hts, hus⟩

theorem exists_closers (stages : List Stage) :
    ∃ more : List Token, (∀ t ∈ more, t.IsSound) ∧ Runs stages more [] := by
  induction stages with
  | nil => exact ⟨[], nofun, .nil _⟩
  | cons stage stages ih =>
    obtain ⟨more, hmore, hruns⟩ := ih
    let closer : Token := ⟨.directive (.closing stage.block) none, .origin⟩
    have hsound : closer.IsSound := trivial
    have hmoves : Moves (stage :: stages) closer stages := .close ⟨none, rfl⟩
    exact ⟨closer :: more, List.forall_mem_cons.mpr ⟨hsound, hmore⟩, .cons hmoves hruns⟩

theorem Runs.isBeginning {ts : List Token} {stages : List Stage} (h : Runs [] ts stages) :
    IsBeginning ts := by
  obtain ⟨more, hmore, hruns⟩ := exists_closers stages
  exact ⟨more, hmore, runs_iff_body.mp (h.append hruns)⟩

end Grammar

namespace Tree

open Grammar (Body Innermost IsBeginning Leaves Runs Stage)

namespace Reading

variable {r r' : Reading} {t : Token} {e : Rejection}

/-- The blocks that are open in a reading, with the places of their openers. -/
def opened (r : Reading) : List (Position × Stage) :=
  r.frames.map fun f => (f.position, f.opening.stage)

/-- The tokens leave open what is open in the reading. -/
def Holds (ts : List Token) (r : Reading) : Prop :=
  ∃ opened, Leaves ts opened ∧ opened.map (fun o => (o.1.position, o.2)) = r.opened

theorem opened_push (n : Node) : (r.push n).opened = r.opened := by
  unfold push
  split
  · rfl
  · rename_i f fs hr
    simp [opened, hr]

theorem opened_close (f : Frame) (fs : List Frame) :
    (r.close f fs).opened = fs.map fun f => (f.position, f.opening.stage) := by
  unfold close
  cases f.opening with
  | sectionOf name => rfl
  | _ => exact opened_push _

variable {ts : List Token}

/-- The innermost open block of a reading was left open by the tokens. -/
theorem Holds.cons {f : Frame} {fs : List Frame} (h : Holds ts r) (hr : r.frames = f :: fs) :
    ∃ opener opened, Leaves ts ((opener, f.opening.stage) :: opened) ∧
      opener.position = f.position ∧
      opened.map (fun o => (o.1.position, o.2)) =
        fs.map fun f => (f.position, f.opening.stage) := by
  obtain ⟨opened, hleaves, hopened⟩ := h
  rw [Reading.opened, hr, List.map_cons] at hopened
  obtain ⟨⟨opener, stage⟩, rest, rfl, ho, hrest⟩ := List.map_eq_cons_iff.mp hopened
  obtain ⟨hposition, rfl⟩ := Prod.mk.inj ho
  exact ⟨opener, rest, hleaves, hposition, hrest⟩

theorem Holds.nil (h : Holds ts r) (hr : r.frames = []) : Body ts := by
  obtain ⟨opened, hleaves, hopened⟩ := h
  rw [Reading.opened, hr] at hopened
  cases List.map_eq_nil_iff.mp hopened
  exact hleaves.body

theorem Takes.holds (htakes : Takes r t r') (h : Holds ts r) : Holds (ts ++ [t]) r' := by
  cases htakes with
  | leaf ht hm hn =>
    obtain ⟨opened, hleaves, hopened⟩ := h
    exact ⟨opened, hleaves.item (.leaf ht), hopened.trans (opened_push _).symm⟩
  | @enter b o hb ht ho hmarks =>
    obtain ⟨opened, hleaves, hopened⟩ := h
    have hopener : t.Is (.opening (Stage.first b).block) := by
      cases b <;> exact ht
    refine ⟨_, hleaves.block hopener (.first hb), ?_⟩
    simp [Reading.opened, Reading.enter, hopened, ho]
  | @branch f fs o hr ht hf ho hmarks =>
    obtain ⟨opener, opened, hleaves, hposition, hrest⟩ := h.cons hr
    rw [hf] at hleaves
    refine ⟨_, hleaves.elseIf ht, ?_⟩
    simp [Reading.opened, hposition, hrest, ho]
  | @last f fs o hr ht hf ho hmarks =>
    obtain ⟨opener, opened, hleaves, hposition, hrest⟩ := h.cons hr
    rw [hf] at hleaves
    refine ⟨_, hleaves.otherwise ht, ?_⟩
    simp [Reading.opened, hposition, hrest, ho]
  | @close f fs hr ht =>
    obtain ⟨opener, opened, hleaves, hposition, hrest⟩ := h.cons hr
    refine ⟨opened, hleaves.close (f.opening.stage_block ▸ ht), ?_⟩
    rw [hrest, opened_close]

/-- What is open when sound tokens have been read is what they leave open. -/
theorem run_holds {us : List Token} (hsound : ∀ t ∈ us, t.IsSound) (hr : Holds ts r)
    (h : us.foldlM step r = .ok r') : Holds (ts ++ us) r' := by
  induction us generalizing r ts with
  | nil =>
    cases h
    simpa using hr
  | cons t us ih =>
    obtain ⟨ht, hsound⟩ := List.forall_mem_cons.mp hsound
    rw [List.foldlM_cons] at h
    obtain ⟨next, hstep, hrest⟩ := bind_ok h
    have htakes := does_takes ht (does_of_step hstep)
    rw [← List.singleton_append, ← List.append_assoc]
    exact ih hsound (htakes.holds hr) hrest

/-- A sound token is refused only if it is a directive that the innermost block does not allow. -/
theorem sound_refused (ht : t.IsSound) (h : r.step t = .error e) :
    ∃ k, t.Is k ∧ e = .problem (.unexpected k r.innermost) t.position := by
  unfold Token.IsSound at ht
  unfold step at h
  cases hkind : t.kind with
  | data text =>
    rw [hkind] at h
    cases h
  | output text | rawOutput text =>
    rw [hkind] at h ht
    obtain ⟨code, hcode⟩ := ht
    dsimp only at h
    rw [ok_bind hcode] at h
    cases h
  | finish =>
    rw [hkind] at ht
    exact ht.elim
  | directive k arguments =>
    rw [hkind] at h ht
    refine ⟨k, ⟨arguments, hkind⟩, ?_⟩
    unfold directive at h
    cases k with
    | opening b =>
      cases b with
      | sectionBlock => exact ht.elim
      | ifBlock | whileBlock =>
        obtain ⟨test, htest⟩ := ht
        dsimp only [opening] at h
        rw [ok_bind htest] at h
        cases h
      | foreachBlock | forBlock =>
        obtain ⟨header, hheader⟩ := ht
        dsimp only [opening] at h
        rw [ok_bind hheader] at h
        cases h
    | closing b =>
      dsimp only [closing] at h
      split at h
      · split at h
        · cases h
        · cases h
          rfl
      · cases h
        rfl
    | elseIf =>
      obtain ⟨next, hnext⟩ := ht
      dsimp only [branch] at h
      split at h
      · split at h
        · rw [ok_bind hnext] at h
          cases h
        · rw [ok_bind hnext] at h
          cases h
        · cases h
          rfl
      · cases h
        rfl
    | otherwise =>
      dsimp only [lastBranch] at h
      split at h
      · split at h
        · cases h
        · cases h
        · cases h
          rfl
      · cases h
        rfl
    | layout => exact ht.elim
    | yielding =>
      obtain ⟨place, hplace⟩ := ht
      dsimp only at h
      rw [ok_bind hplace] at h
      cases h
    | including =>
      obtain ⟨name, hname⟩ := ht
      obtain ⟨given, hgiven, hname⟩ := bind_ok hname
      dsimp only at h
      rw [ok_bind hgiven, ok_bind hname] at h
      cases h

/-- A token that is refused behind others goes on with no page that begins with them. -/
theorem not_body_of_refused {before : List Token} (hsound : ∀ u ∈ before, u.IsSound)
    (ht : t.IsSound) (hbefore : before.foldlM step .empty = .ok r) (h : r.step t = .error e)
    (more : List Token) : ¬ Grammar.Body (before ++ t :: more) := by
  intro hbody
  have hruns := Grammar.runs_iff_body.mpr hbody
  rw [← List.singleton_append, ← List.append_assoc] at hruns
  obtain ⟨stages, hruns, -⟩ := hruns.split
  have hall : ∀ u ∈ before ++ [t], u.IsSound := by
    intro u hu
    rcases List.mem_append.mp hu with hu | hu
    · exact hsound u hu
    · exact List.mem_singleton.mp hu ▸ ht
  obtain ⟨r', hread, -⟩ := run_of_runs hall (r := .empty) hruns
  rw [List.foldlM_append, ok_bind hbefore, List.foldlM_cons, h] at hread
  cases hread

end Reading

/-- What the message `m` tells of a directive `k` behind the tokens: the innermost block that is
open there with the line of its opener, or that there is none. -/
def IsTold (before : List Token) (k : Keyword) (m : String) : Prop :=
  (Body before ∧ m = "Unexpected @" ++ k.text ++ " with no open block" ++ "\n  Hint: " ++
      "Remove it or add the matching opening directive") ∨
    ∃ opener b, Innermost before opener b ∧ m = "Unexpected @" ++ k.text ++ ": @" ++ b.opener ++
      " from line " ++ toString opener.position.line ++ " must be closed with @" ++ b.closer

/-- How the block structure of the tokens `content` is broken, with what is told of it: at a
directive that cannot stand where it does, or, if every token can, at the innermost block that is
left open. -/
inductive Broken (content : List Token) : Rejection → Prop
  | unexpected {before after : List Token} {t : Token} {k : Keyword} {p : Problem}
      (hcontent : content = before ++ t :: after) (ht : t.Is k) (hbefore : IsBeginning before)
      (hlater : ∀ more, ¬ Body (before ++ t :: more)) (hcode : p.code = .unexpectedDirective)
      (hmessage : IsTold before k p.message) : Broken content (.problem p t.position)
  | unclosed {opener : Token} {b : Block} {p : Problem} (hcontent : IsBeginning content)
      (hopener : Innermost content opener b) (hcode : p.code = .unclosedBlock)
      (hmessage : p.message = "Unclosed @" ++ b.opener ++ " (opened at line " ++
        toString opener.position.line ++ ")" ++ "\n  Hint: " ++ ("Add @" ++ b.closer)) :
      Broken content (.problem p opener.position)

namespace Reading

variable {r : Reading} {ts : List Token}

theorem Holds.isTold (h : Holds ts r) (k : Keyword) :
    IsTold ts k (Problem.unexpected k r.innermost).message := by
  have hat : "Unexpected @" ++ k.text = "Unexpected " ++ Problem.directive k := by
    rw [Problem.directive, ← String.append_assoc]
    exact congrArg (· ++ k.text) (by decide : "Unexpected @" = "Unexpected " ++ "@")
  unfold IsTold
  rw [hat]
  cases hr : r.frames with
  | nil =>
    have hinnermost : r.innermost = none := by rw [innermost, hr]; rfl
    rw [hinnermost]
    exact .inl ⟨h.nil hr, rfl⟩
  | cons f fs =>
    obtain ⟨opener, opened, hleaves, hposition, -⟩ := h.cons hr
    have hinnermost : r.innermost = some ⟨f.opening.stage.block, opener.position.line⟩ := by
      rw [innermost, hr, f.opening.stage_block, hposition]
      rfl
    rw [hinnermost]
    exact .inr ⟨opener, f.opening.stage.block, hleaves.innermost, rfl⟩

end Reading

/-- Tokens that are valid by themselves and are no page are refused for their block structure and
for nothing else. -/
theorem broken_of_refused {content : List Token} (hsound : ∀ t ∈ content, t.IsSound)
    {stop : Position} {e : Rejection}
    (h : ofTokens (content ++ [⟨.finish, stop⟩]) = .error e) : Broken content e := by
  have hsound_of {before after : List Token} (hcontent : content = before ++ after) :
      ∀ t ∈ before, t.IsSound := fun t ht => hsound t (hcontent ▸ List.mem_append_left after ht)
  have hread {before : List Token} {r : Reading} (hbefore : ∀ t ∈ before, t.IsSound)
      (hr : before.foldlM Reading.step .empty = .ok r) : IsBeginning before ∧ r.Holds before :=
    ⟨(Reading.run_takes hbefore .empty hr).1.isBeginning,
      Reading.run_holds hbefore ⟨[], .nothing .nil, rfl⟩ hr⟩
  unfold ofTokens at h
  rw [List.foldlM_append] at h
  rcases Reading.bind_error h with h | ⟨r', hr', hassemble⟩
  · rcases Reading.bind_error h with h | ⟨r, hr, hfinish⟩
    · obtain ⟨before, t, after, r, hcontent, hr, hstep⟩ := Reading.foldlM_error h
      have ht : t.IsSound := hsound t (hcontent ▸ by simp)
      have hbefore := hsound_of hcontent
      obtain ⟨hbeginning, hholds⟩ := hread hbefore hr
      obtain ⟨k, hk, rfl⟩ := Reading.sound_refused ht hstep
      exact .unexpected hcontent hk hbeginning (Reading.not_body_of_refused hbefore ht hr hstep)
        rfl (hholds.isTold k)
    · obtain ⟨hbeginning, hholds⟩ := hread hsound hr
      rw [List.foldlM_cons] at hfinish
      rcases Reading.bind_error hfinish with hfinish | ⟨_, _, hnil⟩
      · obtain ⟨f, fs, hframes, rfl⟩ := Reading.finish_error rfl hfinish
        obtain ⟨opener, opened, hleaves, hposition, -⟩ := hholds.cons hframes
        rw [Frame.openBlock, ← hposition, ← f.opening.stage_block]
        exact .unclosed hbeginning hleaves.innermost rfl rfl
      · cases hnil
  · obtain ⟨r, hr, hfinish⟩ := Reading.bind_ok hr'
    obtain ⟨_, hfinish, hnil⟩ := Reading.bind_ok hfinish
    cases hnil
    obtain ⟨-, rfl⟩ := Reading.finish_ok.mp hfinish
    rw [(Reading.run_takes hsound .empty hr).2.1.assemble] at hassemble
    cases hassemble

/-- A conditional that goes on behind its last branch, around a loop that is closed. -/
def crossed : List Token :=
  [⟨.directive (.opening .ifBlock) (some "x"), ⟨1, 0⟩⟩,
    ⟨.directive (.opening .forBlock) (some "y in x"), ⟨1, 6⟩⟩,
    ⟨.directive (.closing .forBlock) none, ⟨1, 19⟩⟩, ⟨.directive .otherwise none, ⟨2, 0⟩⟩,
    ⟨.output "y", ⟨2, 5⟩⟩, ⟨.directive .elseIf (some "z"), ⟨2, 12⟩⟩]

/-- What `crossed` is refused for. -/
def crossing : Rejection := .problem (.unexpected .elseIf (some ⟨.ifBlock, 1⟩)) ⟨2, 12⟩

theorem crossed_broken :
    (∀ t ∈ crossed, t.IsSound) ∧ ofTokens (crossed ++ [⟨.finish, ⟨2, 22⟩⟩]) = .error crossing ∧
      Broken crossed crossing := by
  have hsound : ∀ t ∈ crossed, t.IsSound := by decide +kernel
  have hrefused : ofTokens (crossed ++ [⟨.finish, ⟨2, 22⟩⟩]) = .error crossing := by
    decide +kernel
  exact ⟨hsound, hrefused, broken_of_refused hsound hrefused⟩

end Tree

end Stencil
