import Stencil.Environment
import Stencil.Proofs.Loading
import Stencil.Proofs.Spelling
import Stencil.Proofs.TokenSteps

/-!
# How a source is refused

A source that is no template is refused at a place in its text: where a segment is not closed, at
the token that cannot be read, or at the opener of a block that is never closed. The error tells
this place and the name of the source. Four things escape as bare faults: an argument list that
reads as some other expression, a body that reads well but cannot be run, since an expression in
it has no meaning or its loops are nested too deeply, a source that is to be checked under a name
with a null character, and one that the host itself breaks down on.
-/

namespace Stencil

open Text (Position)

instance decidableEqError {ε α : Type} [DecidableEq ε] (x : Except ε α) (e : ε) :
    Decidable (x = .error e) :=
  match x with
  | .ok _ => .isFalse nofun
  | .error e' => decidable_of_iff (e' = e) ⟨congrArg _, Except.error.inj⟩

namespace Segment

end Segment

/-- A problem is reported at this place. -/
inductive Rejection.At (p : Position) : Rejection → Prop
  | problem (problem : Problem) : At p (.problem problem p)

namespace Written

open Tree.Reading (bind_error)

variable {w : Written} {r : Rejection}

/-- An argument list is refused at its place, or since it reads as no list of arguments. -/
inductive Refuses (w : Written) : Rejection → Prop
  | problem (p : Problem) : Refuses w (.problem p w.position)
  | notACall (h : Expr.readArguments w.arguments.toList = .error .notACall) :
      Refuses w .notACall

theorem Refuses.of_at (h : r.At w.position) : w.Refuses r := by
  cases h with
  | problem p => exact .problem p

theorem permitted_at {text : String} {e : Expr} (h : w.permitted text e = .error r) :
    r.At w.position := by
  unfold permitted at h
  split at h
  · cases h
    exact .problem _
  · cases h

theorem expressionOf_at {text : String} (h : w.expressionOf text = .error r) :
    r.At w.position := by
  unfold expressionOf at h
  split at h
  · cases h
    exact .problem _
  · split at h
    · cases h
      exact .problem _
    · rcases bind_error h with h | ⟨_, -, h⟩
      · exact permitted_at h
      · cases h

theorem literal_at {what : String} {code : Code} (h : w.literal what code = .error r) :
    r.At w.position := by
  unfold literal at h
  split at h
  · cases h
  · cases h
    exact .problem _

theorem loopHeader_at (h : w.loopHeader = .error r) : r.At w.position := by
  unfold loopHeader at h
  simp only at h
  split at h
  · cases h
    exact .problem _
  · split at h
    · cases h
      exact .problem _
    · split at h
      · rcases bind_error h with h | ⟨_, -, h⟩
        · exact expressionOf_at h
        · cases h
      · cases h
        exact .problem _

theorem exists_of_mapM_error {α β : Type} {f : α → Except Rejection β} {as : List α}
    (h : as.mapM f = .error r) : ∃ a ∈ as, f a = .error r := by
  induction as with
  | nil => cases h
  | cons a as ih =>
    rw [List.mapM_cons] at h
    rcases bind_error h with h | ⟨b, -, h⟩
    · exact ⟨a, List.mem_cons_self, h⟩
    · rcases bind_error h with h | ⟨bs, -, h⟩
      · obtain ⟨a', ha', h⟩ := ih h
        exact ⟨a', List.mem_cons_of_mem _ ha', h⟩
      · cases h

theorem argumentList_refuses {least most : Nat} (h : w.argumentList least most = .error r) :
    w.Refuses r := by
  unfold argumentList at h
  split at h
  · cases h
    exact .problem _
  · rename_i hcall
    cases h
    exact .notACall hcall
  · simp only at h
    split at h
    · cases h
      exact .problem _
    · split at h
      · cases h
        exact .problem _
      · obtain ⟨a, -, h⟩ := exists_of_mapM_error h
        rcases bind_error h with h | ⟨_, -, h⟩
        · exact .of_at (permitted_at h)
        · cases h

theorem place_refuses (h : w.place = .error r) : w.Refuses r := by
  rcases bind_error h with h | ⟨arguments, -, h⟩
  · exact argumentList_refuses h
  · rcases bind_error h with h | ⟨name, -, h⟩
    · exact .of_at (literal_at h)
    · split at h
      · rcases bind_error h with h | ⟨_, -, h⟩
        · exact .of_at (literal_at h)
        · cases h
      · cases h

end Written

namespace Keyword

def takesList : Keyword → Bool
  | opening .sectionBlock | layout | yielding | including => true
  | _ => false

end Keyword

def Token.IsNoCall (t : Token) : Prop :=
  ∃ k arguments, t.kind = .directive k arguments ∧ k.takesList = true ∧
    Expr.readArguments (arguments.getD "").toList = .error .notACall

namespace Tree

namespace Reading

variable {r : Reading} {t : Token} {e : Rejection}

/-- A token is refused at its place, or since its argument list is none; the end is refused at the
place of the innermost open block. -/
inductive Refuses (r : Reading) (t : Token) : Rejection → Prop
  | token (p : Problem) : Refuses r t (.problem p t.position)
  | unclosed {f : Frame} {fs : List Frame} (ht : t.kind = .finish) (hr : r.frames = f :: fs) :
      Refuses r t (.problem (.unclosed f.openBlock) f.position)
  | notACall (h : t.IsNoCall) : Refuses r t .notACall

theorem Refuses.of_at (h : e.At t.position) : r.Refuses t e := by
  cases h with
  | problem p => exact .token p

theorem Refuses.of_list {k : Keyword} {arguments : Option String}
    (hk : t.kind = .directive k arguments) (hlist : k.takesList = true)
    (h : Written.Refuses ⟨t.position, some k, arguments.getD ""⟩ e) : r.Refuses t e := by
  cases h with
  | problem p => exact .token p
  | notACall hcall => exact .notACall ⟨k, arguments, hk, hlist, hcall⟩

theorem opening_refuses {b : Block} {arguments : Option String}
    (hk : t.kind = .directive (.opening b) arguments)
    (h : r.opening b ⟨t.position, some (.opening b), arguments.getD ""⟩ = .error e) :
    r.Refuses t e := by
  unfold opening at h
  cases b with
  | ifBlock | whileBlock =>
    rcases bind_error h with h | ⟨_, -, h⟩
    · exact .of_at (Written.expressionOf_at h)
    · cases h
  | foreachBlock | forBlock =>
    rcases bind_error h with h | ⟨_, -, h⟩
    · exact .of_at (Written.loopHeader_at h)
    · cases h
  | sectionBlock =>
    cases hinner : r.innermost with
    | some b =>
      rw [hinner] at h
      cases h
      exact .token _
    | none =>
      rw [hinner] at h
      rcases bind_error h with h | ⟨list, -, h⟩
      · exact .of_list hk rfl (Written.argumentList_refuses h)
      · rcases bind_error h with h | ⟨name, -, h⟩
        · exact .of_at (Written.literal_at h)
        · split at h <;> cases h

theorem branch_refuses {w : Written} (h : r.branch w = .error e) : e.At w.position := by
  have hexpression {o : Code → Reading} (h : (do return o (← w.expression)) = .error e) :
      e.At w.position := by
    rcases bind_error h with h | ⟨_, -, h⟩
    · exact Written.expressionOf_at h
    · cases h
  unfold branch at h
  split at h
  · split at h
    · exact hexpression h
    · exact hexpression h
    · cases h
      exact .problem _
  · cases h
    exact .problem _

theorem lastBranch_refuses {p : Position} (h : r.lastBranch p = .error e) : e.At p := by
  unfold lastBranch at h
  split at h
  · split at h
    · cases h
    · cases h
    · cases h
      exact .problem _
  · cases h
    exact .problem _

theorem closing_refuses {b : Block} {p : Position} (h : r.closing b p = .error e) : e.At p := by
  unfold closing at h
  split at h
  · split at h
    · cases h
    · cases h
      exact .problem _
  · cases h
    exact .problem _

theorem layout_refuses {arguments : Option String} (hk : t.kind = .directive .layout arguments)
    (h : r.layoutDirective ⟨t.position, some .layout, arguments.getD ""⟩ = .error e) :
    r.Refuses t e := by
  unfold layoutDirective at h
  split at h
  · cases h
    exact .token _
  · cases h
    exact .token _
  · rcases bind_error h with h | ⟨list, -, h⟩
    · exact .of_list hk rfl (Written.argumentList_refuses h)
    · rcases bind_error h with h | ⟨name, -, h⟩
      · exact .of_at (Written.literal_at h)
      · cases h

theorem finish_error (ht : t.kind = .finish) (h : r.step t = .error e) :
    ∃ f fs, r.frames = f :: fs ∧ e = .problem (.unclosed f.openBlock) f.position := by
  unfold step finish at h
  rw [ht] at h
  cases hframes : r.frames with
  | nil =>
    rw [hframes] at h
    cases h
  | cons f fs =>
    rw [hframes] at h
    cases h
    exact ⟨f, fs, rfl, rfl⟩

theorem step_refuses (h : r.step t = .error e) : r.Refuses t e := by
  by_cases hfinish : t.kind = .finish
  · obtain ⟨f, fs, hr, rfl⟩ := finish_error hfinish h
    exact .unclosed hfinish hr
  unfold step at h
  cases hkind : t.kind with
  | finish => exact absurd hkind hfinish
  | data text =>
    rw [hkind] at h
    cases h
  | output text | rawOutput text =>
    rw [hkind] at h
    rcases bind_error h with h | ⟨_, -, h⟩
    · exact .of_at (Written.expressionOf_at h)
    · cases h
  | directive k arguments =>
    rw [hkind] at h
    simp only [directive] at h
    cases k with
    | opening b => exact opening_refuses hkind h
    | closing b => exact .of_at (closing_refuses h)
    | elseIf => exact .of_at (branch_refuses h)
    | otherwise => exact .of_at (lastBranch_refuses h)
    | layout => exact layout_refuses hkind h
    | yielding =>
      rcases bind_error h with h | ⟨_, -, h⟩
      · exact .of_list hkind rfl (Written.place_refuses h)
      · cases h
    | including =>
      rcases bind_error h with h | ⟨list, -, h⟩
      · exact .of_list hkind rfl (Written.argumentList_refuses h)
      · rcases bind_error h with h | ⟨name, -, h⟩
        · exact .of_at (Written.literal_at h)
        · cases h

/-- Open blocks and finished sections begin at places as `P` says of their kind. -/
structure Begins (P : Block → Position → Prop) (r : Reading) : Prop where
  frames : ∀ f ∈ r.frames, P f.opening.block f.position
  sections : ∀ s, .section s ∈ r.items → P .sectionBlock s.position

variable {P : Block → Position → Prop} {r' : Reading}

theorem Begins.withFrames (h : r.Begins P) {fs : List Frame}
    (hfs : ∀ f ∈ fs, P f.opening.block f.position) : { r with frames := fs }.Begins P :=
  ⟨hfs, h.sections⟩

theorem Begins.addSection (h : r.Begins P) {s : Section} (hs : P .sectionBlock s.position) :
    { r with items := .section s :: r.items }.Begins P where
  frames := h.frames
  sections s' hs' := by
    rcases List.mem_cons.mp hs' with hs' | hs'
    · cases hs'
      exact hs
    · exact h.sections s' hs'

theorem Begins.push (h : r.Begins P) (n : Node) : (r.push n).Begins P := by
  unfold Reading.push
  split
  · refine ⟨h.frames, fun s hs => ?_⟩
    rcases List.mem_cons.mp hs with hs | hs
    · cases hs
    · exact h.sections s hs
  · rename_i f fs hr
    obtain ⟨hf, hfs⟩ := List.forall_mem_cons.mp (hr ▸ h.frames)
    exact h.withFrames (List.forall_mem_cons.mpr ⟨hf, hfs⟩)

theorem Begins.close (h : r.Begins P) {f : Frame} {fs : List Frame} (hr : r.frames = f :: fs) :
    (r.close f fs).Begins P := by
  obtain ⟨hf, hfs⟩ := List.forall_mem_cons.mp (hr ▸ h.frames)
  have hrest := h.withFrames hfs
  unfold Reading.close
  cases hopening : f.opening with
  | sectionOf name =>
    rw [hopening] at hf
    exact hrest.addSection hf
  | _ => exact hrest.push _

theorem Begins.does (h : r.Begins P)
    (ht : ∀ b arguments, t.kind = .directive (.opening b) arguments → P b t.position)
    (hr' : r.Does t r') : r'.Begins P := by
  have hbranch {f : Frame} {fs : List Frame} {test : Code} {first : List Node}
      {others : List (Code × List Node)} (hr : r.frames = f :: fs)
      (hf : f.Branches test first others) (o : Opening) (ho : o.block = .ifBlock) :
      { r with frames := ⟨f.position, o, []⟩ :: fs }.Begins P := by
    obtain ⟨hposition, hfs⟩ := List.forall_mem_cons.mp (hr ▸ h.frames)
    rw [hf.block, ← ho] at hposition
    exact h.withFrames (List.forall_mem_cons.mpr ⟨hposition, hfs⟩)
  cases hr' with
  | push hn => exact h.push _
  | enter ho hinner =>
    obtain ⟨arguments, hk⟩ := ho.kind
    exact h.withFrames (List.forall_mem_cons.mpr ⟨ht _ arguments hk, h.frames⟩)
  | branch hr hf hk hnext => exact hbranch hr hf _ rfl
  | lastBranch hr hf hk => exact hbranch hr hf _ rfl
  | close hr hk => exact h.close hr
  | inlineSection hk hinner => exact h.addSection (ht _ _ hk)
  | layout hk hinner hlayout => exact ⟨h.frames, h.sections⟩
  | finish hk hr => exact h

def IsOpenedIn (tokens : List Token) (b : Block) (p : Position) : Prop :=
  ∃ t ∈ tokens, t.position = p ∧ ∃ arguments, t.kind = .directive (.opening b) arguments

theorem begins_of_read {tokens : List Token} (h : tokens.foldlM step .empty = .ok r) :
    r.Begins (IsOpenedIn tokens) := by
  have hempty : Reading.empty.Begins (IsOpenedIn tokens) := ⟨nofun, nofun⟩
  refine foldlM_keeps (fun t ht r r' hr hdoes => ?_) hempty h
  exact hr.does (fun b arguments hk => ⟨t, ht, rfl, arguments, hk⟩) hdoes

theorem foldlM_error {ts : List Token} (h : ts.foldlM step r = .error e) :
    ∃ before t after r', ts = before ++ t :: after ∧ before.foldlM step r = .ok r' ∧
      r'.step t = .error e := by
  induction ts generalizing r with
  | nil => cases h
  | cons t ts ih =>
    rw [List.foldlM_cons] at h
    rcases bind_error h with h | ⟨next, hnext, h⟩
    · exact ⟨[], t, ts, r, rfl, rfl, h⟩
    · obtain ⟨before, t', after, r', rfl, hbefore, hstops⟩ := ih h
      exact ⟨t :: before, t', after, r', rfl, by rw [List.foldlM_cons, ok_bind hnext, hbefore],
        hstops⟩

end Reading

theorem assemble_error {layout : Option Layout} {items : List Item} {e : Rejection}
    (h : assemble layout items = .error e) :
    ∃ s, layout = none ∧ .section s ∈ items ∧
      e = .problem (.sectionWithoutLayout s.name) s.position := by
  unfold assemble at h
  split at h
  · cases h
  · split at h
    · rename_i s hs
      cases h
      obtain ⟨i, hi, his⟩ := List.exists_of_findSome?_eq_some hs
      rcases i with n | s'
      · cases his
      · cases his
        exact ⟨s, rfl, hi, rfl⟩
    · cases h

end Tree

/-- How compiling a source on a host can end. -/
inductive Source.Makes (host : Host) (s : Source) : Except Failure Template → Prop
  | template {t : Template} (hsource : t.source = s) (hread : t.IsRead) : Makes host s (.ok t)
  /-- The error tells the name of the source, and a line and a column that are a place in it. -/
  | malformed {e : SyntaxError} {p : Position} (hname : e.name = s.name)
      (hline : e.line = some (p.line : Int)) (hcolumn : e.column = some (p.column : Int))
      (hp : p.LiesIn s.text.toList) : Makes host s (.error (.template (.malformed e)))
  /-- The argument list of a directive reads as some other expression. -/
  | notACall {tokens : List Token} {t : Token} (htokens : s.tokens = .ok tokens) (ht : t ∈ tokens)
      (hcall : t.IsNoCall) : Makes host s (.error (.fault noCall))
  /-- An expression reads well but has no meaning. -/
  | senseless {tree : Tree} {warnings : List String} {body : List Node} {c : Code}
      {why : Expr.Senseless} (htree : s.tree = .ok (tree, warnings)) (hbody : body ∈ tree.bodies)
      (hc : c ∈ Node.expressionsOf body) (hwhy : c.expr.firstSenseless? = some why) :
      Makes host s (.error (.fault (Template.problemFault s why.message)))
  /-- Loops are nested too deeply. -/
  | tooDeep {tree : Tree} {warnings : List String} {body : List Node}
      (htree : s.tree = .ok (tree, warnings)) (hbody : body ∈ tree.bodies)
      (hdeep : Template.deepestLoops < Node.loopDepths body) :
      Makes host s (.error (.fault (Template.problemFault s "too many statically nested blocks")))
  /-- The name under which the source is checked has a null character in it. -/
  | badPlace (hnull : '\x00' ∈ (Template.place s).toList) :
      Makes host s (.error (.fault Template.badPlace))
  /-- The host breaks down on the source. -/
  | breakdown {b : Breakdown} (hb : host.breakdown? s = some b) :
      Makes host s (.error (.fault b.fault))

namespace Source

variable {host : Host} {s : Source}

end Source

end Stencil
