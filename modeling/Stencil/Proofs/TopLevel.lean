import Mathlib.Data.List.Induction
import Mathlib.Data.List.Nodup
import Stencil.Proofs.Readback
import Stencil.Proofs.Sections

/-!
# The top level of a template

The tokens of a template fall into parts, each of which is read on its own: the naming of a
layout, a section, or a node. Only the first token of a part can name a layout or open a section,
so neither stands inside a block. What is read of a part does not depend on the parts in front of
it, and from all the parts a template that extends a layout keeps the sections alone.
-/

namespace Stencil

open Text (Position)

namespace Token

def IsLayout (t : Token) : Prop := ∃ arguments, t.kind = .directive .layout arguments

def IsSection (t : Token) : Prop :=
  ∃ arguments, t.kind = .directive (.opening .sectionBlock) arguments

def IsStructural (t : Token) : Prop := t.IsLayout ∨ t.IsSection

theorem not_structural_of_kind {t : Token} {k : TokenKind} (ht : t.kind = k)
    (hlayout : ∀ arguments, k ≠ .directive .layout arguments)
    (hsection : ∀ arguments, k ≠ .directive (.opening .sectionBlock) arguments) :
    ¬ t.IsStructural := by
  rintro (⟨arguments, h⟩ | ⟨arguments, h⟩)
  · exact hlayout arguments (ht.symm.trans h)
  · exact hsection arguments (ht.symm.trans h)

theorem MakesLeaf.not_structural {t : Token} {n : Node} (h : t.MakesLeaf n) :
    ¬ t.IsStructural := by
  cases h with
  | data hk => exact not_structural_of_kind hk nofun nofun
  | output hk hcode => exact not_structural_of_kind hk nofun nofun
  | rawOutput hk hcode => exact not_structural_of_kind hk nofun nofun
  | yielding hk hplace => exact not_structural_of_kind hk nofun nofun
  | including hk => exact not_structural_of_kind hk nofun nofun

end Token

namespace Tree

namespace Reading

def behind (r base : Reading) : Reading := ⟨r.layout.or base.layout, r.frames, r.items ++ base.items⟩

variable {r base : Reading} {t : Token}

theorem empty_behind (h : base.frames = []) : empty.behind base = base := by
  obtain ⟨layout, frames, items⟩ := base
  cases h
  rfl

theorem push_behind (n : Node) : (r.behind base).push n = (r.push n).behind base := by
  obtain ⟨layout, frames, items⟩ := r
  cases frames <;> rfl

theorem close_behind (f : Frame) (fs : List Frame) :
    (r.behind base).close f fs = (r.close f fs).behind base := by
  unfold close
  cases f.opening with
  | sectionOf name => rfl
  | _ => exact push_behind (r := { r with frames := fs }) _

theorem map_bind {α : Type} (x : Except Rejection α) (f : α → Except Rejection Reading)
    (g : Reading → Reading) : (x >>= f).map g = x >>= fun a => (f a).map g := by
  cases x <;> rfl

theorem opening_behind (b : Block) (w : Written) :
    (r.behind base).opening b w = (r.opening b w).map (·.behind base) := by
  unfold opening
  cases b with
  | sectionBlock =>
    have hinner : (r.behind base).innermost = r.innermost := rfl
    rw [hinner]
    cases r.innermost with
    | some b => rfl
    | none =>
      simp only [map_bind]
      congr 1
      funext arguments
      congr 1
      funext name
      cases arguments.drop 1 <;> rfl
  | _ =>
    simp only [map_bind]
    rfl

theorem branch_behind (w : Written) :
    (r.behind base).branch w = (r.branch w).map (·.behind base) := by
  obtain ⟨layout, frames, items⟩ := r
  cases frames with
  | nil => rfl
  | cons f fs =>
    obtain ⟨position, o, done⟩ := f
    cases o <;> simp only [branch, behind, map_bind] <;> rfl

theorem lastBranch_behind (p : Position) :
    (r.behind base).lastBranch p = (r.lastBranch p).map (·.behind base) := by
  obtain ⟨layout, frames, items⟩ := r
  cases frames with
  | nil => rfl
  | cons f fs =>
    obtain ⟨position, o, done⟩ := f
    cases o <;> rfl

theorem closing_behind (b : Block) (p : Position) :
    (r.behind base).closing b p = (r.closing b p).map (·.behind base) := by
  have hframes : (r.behind base).frames = r.frames := rfl
  unfold closing
  rw [hframes]
  cases r.frames with
  | nil => rfl
  | cons f fs =>
    simp only
    split
    · exact congrArg Except.ok (close_behind f fs)
    · rfl

theorem layout_behind (h : base.layout = none) (w : Written) :
    (r.behind base).layoutDirective w = (r.layoutDirective w).map (·.behind base) := by
  have hlayout : (r.behind base).layout = r.layout := by
    change r.layout.or base.layout = r.layout
    rw [h, Option.or_none]
  have hinner : (r.behind base).innermost = r.innermost := rfl
  unfold layoutDirective
  rw [hlayout, hinner]
  cases r.innermost with
  | some b => rfl
  | none =>
    cases r.layout with
    | some l => rfl
    | none =>
      simp only [map_bind]
      rfl

/-- A token does the same whatever was read before, unless it is a second layout. -/
theorem step_behind (h : t.IsLayout → base.layout = none) :
    (r.behind base).step t = (r.step t).map (·.behind base) := by
  unfold step
  cases hkind : t.kind with
  | data text => exact congrArg Except.ok (push_behind _)
  | output text | rawOutput text =>
    simp only [map_bind]
    congr 1
    funext code
    exact congrArg Except.ok (push_behind _)
  | finish =>
    obtain ⟨layout, frames, items⟩ := r
    cases frames <;> rfl
  | directive k arguments =>
    unfold directive
    cases k with
    | opening b => exact opening_behind b _
    | closing b => exact closing_behind b _
    | elseIf => exact branch_behind _
    | otherwise => exact lastBranch_behind _
    | layout => exact layout_behind (h ⟨arguments, hkind⟩) _
    | yielding =>
      simp only [map_bind]
      congr 1
      funext place
      exact congrArg Except.ok (push_behind _)
    | including =>
      simp only [map_bind]
      congr 1
      funext list
      congr 1
      funext name
      exact congrArg Except.ok (push_behind _)

theorem foldlM_behind {tokens : List Token}
    (h : ∀ t ∈ tokens, t.IsLayout → base.layout = none) (r : Reading) :
    tokens.foldlM step (r.behind base) = (tokens.foldlM step r).map (·.behind base) := by
  induction tokens generalizing r with
  | nil => rfl
  | cons t tokens ih =>
    have hstep := step_behind (r := r) (h t List.mem_cons_self)
    have hlater := ih fun t ht => h t (List.mem_cons_of_mem _ ht)
    rw [List.foldlM_cons, List.foldlM_cons, hstep]
    cases r.step t with
    | error e => rfl
    | ok r' => exact hlater r'

end Reading

inductive TopLevel
  | layout (l : Layout)
  | item (i : Item)

namespace TopLevel

def reading : TopLevel → Reading
  | layout l => ⟨some l, [], []⟩
  | item i => ⟨none, [], [i]⟩

def layout? : TopLevel → Option Layout
  | layout l => some l
  | item _ => none

def item? : TopLevel → Option Item
  | layout _ => none
  | item i => some i

/-- It begins with this token: layouts and sections with the directive for them, nodes with any
other token. -/
inductive StartsWith (t : Token) : TopLevel → Prop
  | layout {name : String} (ht : t.IsLayout) : StartsWith t (layout ⟨t.position, name⟩)
  | section {name : String} {body : List Node} (ht : t.IsSection) :
      StartsWith t (item (.section ⟨t.position, name, body⟩))
  | node {n : Node} (ht : ¬ t.IsStructural) : StartsWith t (item (.node n))

end TopLevel

/-- A stretch of tokens at the top level, with what it is read as on its own. -/
structure Part where
  first : Token
  rest : List Token
  content : TopLevel
  starts : content.StartsWith first
  /-- Nothing inside of it names a layout or opens a section. -/
  plain : ∀ t ∈ rest, ¬ t.IsStructural
  reads : (first :: rest).foldlM Reading.step Reading.empty = .ok content.reading

namespace Part

def tokens (p : Part) : List Token := p.first :: p.rest

def layouts (parts : List Part) : List Layout := parts.filterMap (·.content.layout?)

def items (parts : List Part) : List Item := parts.filterMap (·.content.item?)

/-- What reading the parts comes to, if no more than one of them is a layout. -/
def reading (parts : List Part) : Reading := ⟨(layouts parts).head?, [], (items parts).reverse⟩

theorem layout_of_isLayout (p : Part) {t : Token} (ht : t ∈ p.tokens) (hlayout : t.IsLayout) :
    ∃ l, p.content = .layout l := by
  rcases List.mem_cons.mp ht with rfl | ht
  · have hstarts := p.starts
    cases hcontent : p.content with
    | layout l => exact ⟨l, rfl⟩
    | item i =>
      rw [hcontent] at hstarts
      cases hstarts with
      | «section» hsection =>
        obtain ⟨_, hlayout⟩ := hlayout
        obtain ⟨_, hsection⟩ := hsection
        cases hlayout.symm.trans hsection
      | node hnode => exact absurd (.inl hlayout) hnode
  · exact absurd (.inl hlayout) (p.plain t ht)

theorem read_behind (p : Part) {base : Reading} (hframes : base.frames = [])
    (hlayout : ∀ l, p.content = .layout l → base.layout = none) :
    p.tokens.foldlM Reading.step base = .ok (p.content.reading.behind base) := by
  have hone (t : Token) (ht : t ∈ p.tokens) (hl : t.IsLayout) : base.layout = none := by
    obtain ⟨l, hl⟩ := p.layout_of_isLayout ht hl
    exact hlayout l hl
  have hreads := Reading.foldlM_behind hone Reading.empty
  rw [Reading.empty_behind hframes] at hreads
  rw [hreads]
  exact congrArg (Except.map _) p.reads

theorem layouts_concat (parts : List Part) (p : Part) :
    layouts (parts ++ [p]) = layouts parts ++ p.content.layout?.toList := by
  rw [layouts, List.filterMap_append, layouts]
  cases h : p.content.layout? <;> simp [h]

theorem items_concat (parts : List Part) (p : Part) :
    items (parts ++ [p]) = items parts ++ p.content.item?.toList := by
  rw [items, List.filterMap_append, items]
  cases h : p.content.item? <;> simp [h]

theorem reading_concat (parts : List Part) (p : Part)
    (hlayout : ∀ l, p.content = .layout l → layouts parts = []) :
    reading (parts ++ [p]) = p.content.reading.behind (reading parts) := by
  unfold reading
  rw [layouts_concat, items_concat, List.reverse_append]
  cases hcontent : p.content with
  | layout l =>
    rw [hlayout l hcontent]
    rfl
  | item i => simp [TopLevel.layout?, TopLevel.item?, TopLevel.reading, Reading.behind]

/-- The induction puts one part after the other behind those that were read. -/
theorem read_all (parts : List Part) (hone : (layouts parts).length ≤ 1) :
    (parts.flatMap tokens).foldlM Reading.step Reading.empty = .ok (reading parts) := by
  induction parts using List.reverseRecOn with
  | nil => rfl
  | append_singleton parts p ih =>
    rw [layouts_concat, List.length_append] at hone
    have hbefore := ih (by omega)
    have hlayout (l : Layout) (hl : p.content = .layout l) : layouts parts = [] := by
      rw [hl] at hone
      have hcount : (TopLevel.layout l).layout?.toList.length = 1 := rfl
      exact List.eq_nil_of_length_eq_zero (by omega)
    have hnone (l : Layout) (hl : p.content = .layout l) : (reading parts).layout = none := by
      change (layouts parts).head? = none
      rw [hlayout l hl]
      rfl
    have hframes : (reading parts).frames = [] := rfl
    have hread := p.read_behind hframes hnone
    rw [List.flatMap_append, List.foldlM_append, hbefore, List.flatMap_cons, List.flatMap_nil,
      List.append_nil, reading_concat parts p hlayout]
    exact hread

end Part

def Frame.OpenedBy (t : Token) (f : Frame) : Prop :=
  f.opening.block = .sectionBlock ∧ t.IsSection ∧ f.position = t.position ∨
    f.opening.block ≠ .sectionBlock ∧ ¬ t.IsStructural

/-- A part has begun with these tokens and is not complete. Its first token has opened the
outermost block; only this block can be a section. -/
inductive Unfinished : List Token → Reading → Prop
  | nothing : Unfinished [] Reading.empty
  | inside {t : Token} {ts : List Token} {f : Frame} {fs : List Frame} (hf : f.OpenedBy t)
      (hts : ∀ u ∈ ts, ¬ u.IsStructural) (hfs : ∀ g ∈ fs, g.opening.block ≠ .sectionBlock) :
      Unfinished (t :: ts) ⟨none, fs ++ [f], []⟩

def IsComplete (tokens : List Token) (r : Reading) : Prop :=
  ∃ t ts, ∃ x : TopLevel, tokens = t :: ts ∧ x.StartsWith t ∧ (∀ u ∈ ts, ¬ u.IsStructural) ∧
    r = x.reading

theorem IsComplete.part {tokens : List Token} {r : Reading} (h : IsComplete tokens r)
    (hread : tokens.foldlM Reading.step Reading.empty = .ok r) :
    ∃ p : Part, p.tokens = tokens ∧ p.content.reading = r := by
  obtain ⟨t, ts, x, rfl, hstarts, hplain, rfl⟩ := h
  exact ⟨⟨t, ts, x, hstarts, hplain, hread⟩, rfl, rfl⟩

theorem opens_openedBy {t : Token} {o : Opening} (h : t.Opens o) :
    (⟨t.position, o, []⟩ : Frame).OpenedBy t := by
  cases h with
  | conditional hk => exact .inr ⟨nofun, Token.not_structural_of_kind hk nofun nofun⟩
  | @loopOver _ k _ _ hk =>
    have hblock : k.block ≠ .sectionBlock := by cases k <;> nofun
    refine .inr ⟨hblock, Token.not_structural_of_kind hk nofun fun arguments h => ?_⟩
    cases k <;> cases h
  | loopWhile hk => exact .inr ⟨nofun, Token.not_structural_of_kind hk nofun nofun⟩
  | «section» hk => exact .inl ⟨rfl, ⟨_, hk⟩, rfl⟩

theorem Opening.eq_sectionOf {o : Opening} (h : o.block = .sectionBlock) :
    ∃ name, o = .sectionOf name := by
  cases o with
  | sectionOf name => exact ⟨name, rfl⟩
  | loopOver k target source => cases k <;> cases h
  | _ => cases h

namespace Unfinished

variable {t : Token} {ts : List Token} {f g : Frame} {fs gs : List Frame}

/-- Inside a part, the innermost block is replaced by another one of no section. -/
theorem replace {u : Token} (hf : f.OpenedBy t) (hts : ∀ u ∈ ts, ¬ u.IsStructural)
    (hfs : ∀ g ∈ fs, g.opening.block ≠ .sectionBlock) (hu : ¬ u.IsStructural)
    (hg : fs ++ [f] = g :: gs) {g' : Frame} (hposition : g'.position = g.position)
    (hblock : g'.opening.block = g.opening.block) :
    Unfinished (t :: ts ++ [u]) ⟨none, g' :: gs, []⟩ := by
  have hts' : ∀ v ∈ ts ++ [u], ¬ v.IsStructural :=
    List.forall_mem_append.mpr ⟨hts, List.forall_mem_singleton.mpr hu⟩
  cases fs with
  | nil =>
    cases hg
    have hf' : g'.OpenedBy t := by
      unfold Frame.OpenedBy
      rw [hposition, hblock]
      exact hf
    have hnone : ∀ g ∈ ([] : List Frame), g.opening.block ≠ .sectionBlock := nofun
    exact .inside hf' hts' hnone
  | cons g₀ fs =>
    cases hg
    obtain ⟨hg₀, hfs⟩ := List.forall_mem_cons.mp hfs
    have hfs' : ∀ g ∈ g' :: fs, g.opening.block ≠ .sectionBlock :=
      List.forall_mem_cons.mpr ⟨hblock ▸ hg₀, hfs⟩
    exact .inside hf hts' hfs'

theorem push {u : Token} (hf : f.OpenedBy t) (hts : ∀ u ∈ ts, ¬ u.IsStructural)
    (hfs : ∀ g ∈ fs, g.opening.block ≠ .sectionBlock) (hu : ¬ u.IsStructural) (n : Node) :
    Unfinished (t :: ts ++ [u]) (Reading.push ⟨none, fs ++ [f], []⟩ n) := by
  cases fs with
  | nil => exact replace hf hts hfs hu rfl rfl rfl
  | cons g fs => exact replace hf hts hfs hu rfl rfl rfl

theorem close_node (r : Reading) (hf : f.opening.block ≠ .sectionBlock) (fs : List Frame) :
    ∃ n, r.close f fs = { r with frames := fs }.push n := by
  unfold Reading.close
  cases hopening : f.opening with
  | sectionOf name => exact absurd (by rw [hopening]; rfl) hf
  | _ => exact ⟨_, rfl⟩

/-- Closing the outermost block completes the part, closing any other one puts a node into the
block around it. -/
theorem close {u : Token} (hf : f.OpenedBy t) (hts : ∀ u ∈ ts, ¬ u.IsStructural)
    (hfs : ∀ g ∈ fs, g.opening.block ≠ .sectionBlock) (hu : ¬ u.IsStructural)
    (hg : fs ++ [f] = g :: gs) :
    Unfinished (t :: ts ++ [u]) (Reading.close ⟨none, fs ++ [f], []⟩ g gs) ∨
      IsComplete (t :: ts ++ [u]) (Reading.close ⟨none, fs ++ [f], []⟩ g gs) := by
  have hts' : ∀ v ∈ ts ++ [u], ¬ v.IsStructural :=
    List.forall_mem_append.mpr ⟨hts, List.forall_mem_singleton.mpr hu⟩
  cases fs with
  | cons g₀ fs =>
    rw [List.cons_append] at hg
    obtain ⟨rfl, rfl⟩ := List.cons.inj hg
    obtain ⟨hg₀, hfs⟩ := List.forall_mem_cons.mp hfs
    obtain ⟨n, hclose⟩ := close_node ⟨none, g₀ :: fs ++ [f], []⟩ hg₀ (fs ++ [f])
    rw [hclose]
    exact .inl (push hf hts hfs hu n)
  | nil =>
    cases hg
    refine .inr ?_
    rcases hf with ⟨hblock, hsection, hposition⟩ | ⟨hblock, ht⟩
    · obtain ⟨name, hopening⟩ := Opening.eq_sectionOf hblock
      have hstarts : TopLevel.StartsWith t (.item (.section ⟨t.position, name, f.done.reverse⟩)) :=
        .section hsection
      refine ⟨t, ts ++ [u], _, rfl, hstarts, hts', ?_⟩
      simp only [Reading.close, hopening, hposition]
      rfl
    · obtain ⟨n, hclose⟩ := close_node ⟨none, [f], []⟩ hblock []
      exact ⟨t, ts ++ [u], _, rfl, .node ht, hts', hclose⟩

theorem step {cur : List Token} {r r' : Reading} {u : Token} (h : Unfinished cur r)
    (hdoes : r.Does u r') (hfinish : u.kind ≠ .finish) :
    Unfinished (cur ++ [u]) r' ∨ IsComplete (cur ++ [u]) r' := by
  cases h with
  | nothing =>
    cases hdoes with
    | push hn => exact .inr ⟨u, [], _, rfl, .node hn.not_structural, nofun, rfl⟩
    | enter ho hinner =>
      have hnone : ∀ g ∈ ([] : List Frame), g.opening.block ≠ .sectionBlock := nofun
      exact .inl (.inside (opens_openedBy ho) (List.forall_mem_nil _) hnone)
    | branch hr hf hk hnext => cases hr
    | lastBranch hr hf hk => cases hr
    | close hr hk => cases hr
    | inlineSection hk hinner => exact .inr ⟨u, [], _, rfl, .section ⟨_, hk⟩, nofun, rfl⟩
    | layout hk hinner hlayout => exact .inr ⟨u, [], _, rfl, .layout ⟨_, hk⟩, nofun, rfl⟩
    | finish hk hr => exact absurd hk hfinish
  | @inside t ts f fs hf hts hfs =>
    have hopen : (⟨none, fs ++ [f], []⟩ : Reading).innermost ≠ none := by
      cases fs <;> nofun
    cases hdoes with
    | push hn => exact .inl (push hf hts hfs hn.not_structural _)
    | @enter o ho hinner =>
      rcases opens_openedBy ho with ⟨hblock, -, -⟩ | ⟨hblock, hu⟩
      · exact absurd (hinner hblock) hopen
      · have hts' : ∀ v ∈ ts ++ [u], ¬ v.IsStructural :=
          List.forall_mem_append.mpr ⟨hts, List.forall_mem_singleton.mpr hu⟩
        have hfs' : ∀ g ∈ ⟨u.position, o, []⟩ :: fs, g.opening.block ≠ .sectionBlock :=
          List.forall_mem_cons.mpr ⟨hblock, hfs⟩
        exact .inl (.inside hf hts' hfs')
    | branch hr hg hk hnext =>
      have hu := Token.not_structural_of_kind hk nofun nofun
      exact .inl (replace hf hts hfs hu hr rfl hg.block.symm)
    | lastBranch hr hg hk =>
      have hu := Token.not_structural_of_kind hk nofun nofun
      exact .inl (replace hf hts hfs hu hr rfl hg.block.symm)
    | close hr hk =>
      exact close hf hts hfs (Token.not_structural_of_kind hk nofun nofun) hr
    | inlineSection hk hinner => exact absurd hinner hopen
    | layout hk hinner hlayout => exact absurd hinner hopen
    | finish hk hr => exact absurd hk hfinish

end Unfinished

namespace Reading

variable {r r' : Reading} {t : Token}

theorem push_layout (n : Node) : (r.push n).layout = r.layout := by
  unfold push
  cases r.frames <;> rfl

/-- Only a layout token sets the layout, and only where there was none. -/
theorem Does.layout_cases (h : r.Does t r') :
    t.IsLayout ∧ r.layout = none ∨ ¬ t.IsLayout ∧ r'.layout = r.layout := by
  have hother {k : TokenKind} (hk : t.kind = k)
      (hne : ∀ arguments, k ≠ .directive .layout arguments) : ¬ t.IsLayout := by
    rintro ⟨arguments, h⟩
    exact hne arguments (hk.symm.trans h)
  cases h with
  | push hn => exact .inr ⟨fun h => hn.not_structural (.inl h), push_layout _⟩
  | enter ho hinner =>
    refine .inr ⟨fun h => ?_, rfl⟩
    rcases opens_openedBy ho with ⟨-, ⟨_, hsection⟩, -⟩ | ⟨-, hnot⟩
    · exact hother hsection (by simp) h
    · exact hnot (.inl h)
  | branch hr hf hk hnext => exact .inr ⟨hother hk (by simp), rfl⟩
  | lastBranch hr hf hk => exact .inr ⟨hother hk (by simp), rfl⟩
  | @close f fs _ hr hk =>
    refine .inr ⟨hother hk (by simp), ?_⟩
    by_cases hf : f.opening.block = .sectionBlock
    · obtain ⟨name, hopening⟩ := Opening.eq_sectionOf hf
      simp only [Reading.close, hopening]
    · obtain ⟨n, hclose⟩ := Unfinished.close_node r hf fs
      rw [hclose, push_layout]
  | inlineSection hk hinner => exact .inr ⟨hother hk (by simp), rfl⟩
  | layout hk hinner hlayout => exact .inl ⟨⟨_, hk⟩, hlayout⟩
  | finish hk hr => exact .inr ⟨hother hk (by simp), rfl⟩

end Reading

/-- What was read is a number of parts and the beginning of one more. -/
structure Cut (content : List Token) (r : Reading) (parts : List Part) (cur : List Token)
    (inner : Reading) : Prop where
  tokens : content = parts.flatMap Part.tokens ++ cur
  layouts : (Part.layouts parts).length ≤ 1
  read : cur.foldlM Reading.step Reading.empty = .ok inner
  unfinished : Unfinished cur inner
  behind : r = inner.behind (Part.reading parts)

namespace Cut

variable {content cur : List Token} {r r' inner : Reading} {parts : List Part} {u : Token}

theorem layouts_eq_nil (h : (Part.reading parts).layout = none) : Part.layouts parts = [] :=
  List.head?_eq_none_iff.mp h

/-- The part that was begun is complete, so nothing more has begun. -/
theorem complete (h : Cut content r parts cur inner) {p : Part} (hp : p.tokens = cur ++ [u])
    (hlayout : ∀ l, p.content = .layout l → Part.layouts parts = []) :
    Cut (content ++ [u]) (p.content.reading.behind (Part.reading parts)) (parts ++ [p]) []
      .empty where
  tokens := by
    rw [h.tokens, List.flatMap_append, List.append_nil, List.append_assoc, ← hp]
    simp
  layouts := by
    rw [Part.layouts_concat]
    cases hcontent : p.content with
    | layout l =>
      rw [hlayout l hcontent]
      exact Nat.le_refl 1
    | item i => simpa [TopLevel.layout?] using h.layouts
  read := rfl
  unfinished := .nothing
  behind := by
    have hframes : (p.content.reading.behind (Part.reading parts)).frames = [] := by
      cases p.content <;> rfl
    rw [Part.reading_concat parts p hlayout, Reading.empty_behind hframes]

/-- One more token continues the part that has begun, or completes it. What stands before the
part has no influence on the token, since a layout is refused if another one stands there. -/
theorem step (h : Cut content r parts cur inner) (hstep : r.step u = .ok r')
    (hfinish : u.kind ≠ .finish) :
    ∃ parts cur inner, Cut (content ++ [u]) r' parts cur inner := by
  have hcut := h
  obtain ⟨htokens, hlayouts, hread, hunfinished, rfl⟩ := h
  have hbase (hu : u.IsLayout) : (Part.reading parts).layout = none := by
    rcases (Reading.does_of_step hstep).layout_cases with ⟨-, hnone⟩ | ⟨hnot, -⟩
    · exact (Option.or_eq_none_iff.mp hnone).2
    · exact absurd hu hnot
  rw [Reading.step_behind hbase] at hstep
  cases hinner : inner.step u with
  | error e =>
    rw [hinner] at hstep
    cases hstep
  | ok inner' =>
    rw [hinner] at hstep
    cases hstep
    have hdoes := Reading.does_of_step hinner
    have hread' : (cur ++ [u]).foldlM Reading.step Reading.empty = .ok inner' := by
      rw [List.foldlM_append, Reading.ok_bind hread, List.foldlM_cons, Reading.ok_bind hinner]
      rfl
    rcases hunfinished.step hdoes hfinish with hinside | hcomplete
    · refine ⟨parts, cur ++ [u], inner', ?_, hlayouts, hread', hinside, rfl⟩
      rw [htokens, List.append_assoc]
    · obtain ⟨p, hp, rfl⟩ := hcomplete.part hread'
      have hlayout (l : Layout) (hl : p.content = .layout l) : Part.layouts parts = [] := by
        rcases hdoes.layout_cases with ⟨hu, -⟩ | ⟨-, hsame⟩
        · exact layouts_eq_nil (hbase hu)
        · have hnone : inner.layout = none := by cases hunfinished <;> rfl
          rw [hnone, hl] at hsame
          cases hsame
      exact ⟨parts ++ [p], [], .empty, hcut.complete hp hlayout⟩

end Cut

theorem cut_of_read {content : List Token} (hfinish : ∀ t ∈ content, t.kind ≠ .finish)
    {r : Reading} (h : content.foldlM Reading.step Reading.empty = .ok r) :
    ∃ parts cur inner, Cut content r parts cur inner := by
  induction content using List.reverseRecOn generalizing r with
  | nil =>
    cases h
    exact ⟨[], [], .empty, rfl, Nat.zero_le 1, rfl, .nothing, rfl⟩
  | append_singleton content u ih =>
    rw [List.foldlM_append] at h
    obtain ⟨before, hbefore, h⟩ := Reading.bind_ok h
    rw [List.foldlM_cons] at h
    obtain ⟨after, hstep, h⟩ := Reading.bind_ok h
    cases h
    have hcontent (t : Token) (ht : t ∈ content) : t.kind ≠ .finish :=
      hfinish t (List.mem_append_left _ ht)
    obtain ⟨parts, cur, inner, hcut⟩ := ih hcontent hbefore
    exact hcut.step hstep (hfinish u (by simp))

theorem parts_of_ofTokens {content : List Token} (hfinish : ∀ t ∈ content, t.kind ≠ .finish)
    {stop : Position} {read : Tree × List Position}
    (h : ofTokens (content ++ [⟨.finish, stop⟩]) = .ok read) :
    ∃ parts, parts.flatMap Part.tokens = content ∧ (Part.layouts parts).length ≤ 1 ∧
      assemble (Part.layouts parts).head? (Part.items parts) = .ok read := by
  obtain ⟨r, hr, hframes, hassemble⟩ := ofTokens_ok.mp h
  obtain ⟨parts, cur, inner, htokens, hlayouts, -, hunfinished, rfl⟩ := cut_of_read hfinish hr
  cases hunfinished with
  | nothing =>
    refine ⟨parts, by rw [htokens, List.append_nil], hlayouts, ?_⟩
    rw [Reading.empty_behind rfl] at hassemble
    simpa [Part.reading] using hassemble
  | inside hf hts hfs => simp [Reading.behind] at hframes

/-- Parts with one layout at most make what their layout and their items make. -/
theorem ofTokens_parts {parts : List Part} (h : (Part.layouts parts).length ≤ 1)
    (stop : Position) :
    ofTokens (parts.flatMap Part.tokens ++ [⟨.finish, stop⟩]) =
      assemble (Part.layouts parts).head? (Part.items parts) := by
  have hstep : (Part.reading parts).step ⟨.finish, stop⟩ = .ok (Part.reading parts) :=
    Reading.finish_ok.mpr ⟨rfl, rfl⟩
  have hfinish : [⟨.finish, stop⟩].foldlM Reading.step (Part.reading parts) =
      .ok (Part.reading parts) := by
    rw [List.foldlM_cons, Reading.ok_bind hstep]
    rfl
  unfold ofTokens
  rw [List.foldlM_append, Part.read_all parts h, Reading.ok_bind rfl, Reading.ok_bind hfinish]
  simp [Part.reading]

def Item.section? : Item → Option Section
  | .node _ => none
  | .section s => some s

theorem names_define_of_mem {s : Section} {l : List Section} (h : s.name ∈ l.map (·.name)) :
    (define s l).map (·.name) = l.map (·.name) := by
  induction l with
  | nil => cases h
  | cons t ts ih =>
    unfold define
    by_cases ht : t.name = s.name
    · rw [if_pos ht, List.map_cons, List.map_cons, ht]
    · have hrest : s.name ∈ ts.map (·.name) := by
        rcases List.mem_cons.mp h with h | h
        · exact absurd h.symm ht
        · exact h
      rw [if_neg ht, List.map_cons, List.map_cons, ih hrest]

theorem names_define_of_not_mem {s : Section} {l : List Section}
    (h : s.name ∉ l.map (·.name)) :
    (define s l).map (·.name) = l.map (·.name) ++ [s.name] := by
  induction l with
  | nil => rfl
  | cons t ts ih =>
    rw [List.map_cons, List.mem_cons, not_or] at h
    unfold define
    rw [if_neg (Ne.symm h.1), List.map_cons, List.map_cons, ih h.2, List.cons_append]

/-- The sections that are left of some sections: one of each name, in the order in which the
names come up first, and of each name the last. -/
structure KeepsLast (all own : List Section) : Prop where
  names : own.map (·.name) = (all.map (·.name)).eraseDups
  distinct : (own.map (·.name)).Nodup
  last : ∀ s ∈ own, (all.filter (·.name = s.name)).getLast? = some s

theorem sectionsOf_eq_foldl (items : List Item) :
    sectionsOf items = (items.filterMap Item.section?).foldl (fun own s => define s own) [] := by
  rw [List.foldl_filterMap]
  unfold sectionsOf
  congr 1
  funext own item
  cases item <;> rfl

theorem definitions_eq_filter (name : String) (items : List Item) :
    definitions name items = (items.filterMap Item.section?).filter (·.name = name) := by
  unfold definitions
  rw [List.filter_filterMap]
  congr 1
  funext item
  cases item with
  | node n => rfl
  | «section» s => by_cases h : s.name = name <;> simp [Item.section?, Option.filter, h]

theorem names_foldl_define (all : List Section) :
    ((all.foldl (fun own s => define s own) []).map (·.name)) = (all.map (·.name)).eraseDups ∧
      ((all.foldl (fun own s => define s own) []).map (·.name)).Nodup := by
  induction all using List.reverseRecOn with
  | nil => exact ⟨rfl, List.nodup_nil⟩
  | append_singleton all s ih =>
    obtain ⟨hnames, hdistinct⟩ := ih
    rw [List.foldl_append, List.foldl_cons, List.foldl_nil, List.map_append,
      List.eraseDups_append]
    generalize all.foldl (fun own s => define s own) [] = own at hnames hdistinct ⊢
    have hmem : s.name ∈ own.map (·.name) ↔ s.name ∈ all.map (·.name) := by
      rw [hnames, List.mem_eraseDups]
    by_cases h : s.name ∈ own.map (·.name)
    · rw [names_define_of_mem h]
      refine ⟨?_, hdistinct⟩
      have hold : [s.name].removeAll (all.map (·.name)) = [] := by
        simpa [List.removeAll] using hmem.mp h
      rw [List.map_singleton, hold, hnames]
      simp
    · rw [names_define_of_not_mem h]
      have hnew : [s.name].removeAll (all.map (·.name)) = [s.name] := by
        simpa [List.removeAll] using fun h' => h (hmem.mpr h')
      rw [List.map_singleton, hnew, hnames]
      refine ⟨rfl, ?_⟩
      rw [← hnames]
      exact List.nodup_append.mpr ⟨hdistinct, List.nodup_singleton _, by simpa using h⟩

theorem keepsLast_sectionsOf (items : List Item) :
    KeepsLast (items.filterMap Item.section?) (sectionsOf items) := by
  obtain ⟨hnames, hdistinct⟩ := names_foldl_define (items.filterMap Item.section?)
  rw [← sectionsOf_eq_foldl] at hnames hdistinct
  refine ⟨hnames, hdistinct, fun s hs => ?_⟩
  rw [← definitions_eq_filter, ← find?_sectionsOf]
  cases hfind : (sectionsOf items).find? (·.name = s.name) with
  | none => simpa using List.find?_eq_none.mp hfind s hs
  | some s' =>
    have hname : s'.name = s.name := by simpa using List.find?_some hfind
    have hmem := List.mem_of_find?_eq_some hfind
    exact congrArg some (List.inj_on_of_nodup_map hdistinct hmem hs hname)

theorem firstSection?_eq_none {items : List Item} (h : firstSection? items = none) :
    items.filterMap Item.section? = [] := by
  rw [List.filterMap_eq_nil_iff]
  intro item hitem
  cases item with
  | node n => rfl
  | «section» s => cases List.findSome?_eq_none_iff.mp h _ hitem

namespace Part

def sections (parts : List Part) : List Section := (items parts).filterMap Item.section?

/-- Without a layout there are no sections, and a page is made of nodes. With a layout all that
is made is sections, one of each name. -/
inductive Make (parts : List Part) : Tree → Prop
  | page (hlayouts : layouts parts = []) (hsections : sections parts = []) :
      Make parts (.page (nodesOf (items parts)))
  | extension {l : Layout} {own : List Section} (hlayouts : layouts parts = [l])
      (hown : KeepsLast (sections parts) own) : Make parts (.extension l.position l.name own)

/-- Parts with the same sections and the same layout, wherever it is named. -/
structure Moves (parts parts' : List Part) (l l' : Layout) : Prop where
  before : layouts parts = [l]
  after : layouts parts' = [l']
  name : l'.name = l.name
  sections : sections parts' = sections parts

theorem make_of_assemble {parts : List Part} (hone : (layouts parts).length ≤ 1) {tree : Tree}
    {orphans : List Position}
    (h : assemble (layouts parts).head? (items parts) = .ok (tree, orphans)) :
    Make parts tree := by
  cases hlayouts : layouts parts with
  | nil =>
    rw [hlayouts] at h
    unfold assemble at h
    simp only [List.head?_nil] at h
    split at h
    · cases h
    · rename_i hfirst
      cases h
      exact .page hlayouts (firstSection?_eq_none hfirst)
  | cons l others =>
    rw [hlayouts] at h hone
    have hnone : others = [] :=
      List.eq_nil_of_length_eq_zero (by simpa using hone)
    rw [hnone] at hlayouts
    cases h
    exact .extension hlayouts (keepsLast_sectionsOf (items parts))

/-- Moving the layout and changing content that is no section leaves the sections as they are. -/
theorem Moves.make {parts parts' : List Part} {l l' : Layout} (h : Moves parts parts' l l')
    {tree : Tree} {orphans : List Position}
    (hmade : assemble (layouts parts).head? (items parts) = .ok (tree, orphans))
    (stop : Position) :
    ∃ orphans', ofTokens (parts'.flatMap tokens ++ [⟨.finish, stop⟩]) =
      .ok (.extension l'.position l.name tree.sections, orphans') := by
  have hone : (layouts parts').length ≤ 1 := by
    rw [h.after]
    exact Nat.le_refl 1
  have hsame : sectionsOf (items parts') = sectionsOf (items parts) := by
    rw [sectionsOf_eq_foldl, sectionsOf_eq_foldl]
    exact congrArg _ h.sections
  rw [h.before] at hmade
  cases hmade
  rw [ofTokens_parts hone, h.after, ← h.name]
  exact ⟨_, by rw [Tree.sections, ← hsame]; rfl⟩

end Part

/-- What compiling a tree comes to: it is checked, under a name that can be told the host, and
nothing else can stop it. -/
theorem compile_read {s : Source} {tree : Tree} {orphans : List Position} {tokens : List Token}
    (htokens : s.tokens = .ok tokens) (h : ofTokens tokens = .ok (tree, orphans))
    (lenient : Bool) :
    (Template.compile s lenient).Settles (.ok ⟨s, tree, lenient⟩) ∨
      (∃ body ∈ tree.bodies, ∃ problem, Template.bodyProblem? body = some problem ∧
        (Template.compile s lenient).Settles
          (.error (.fault (Template.problemFault s problem)))) ∨
      '\x00' ∈ (Template.place s).toList ∧
        (Template.compile s lenient).Settles (.error (.fault Template.badPlace)) := by
  have hsettles := Template.compile_settles s lenient
  unfold Template.ofSource Source.tree at hsettles
  rw [htokens] at hsettles
  simp only [h] at hsettles
  simp only [bind, Except.bind, Template.checkFault?] at hsettles
  by_cases hnull : '\x00' ∈ (Template.place s).toList
  · rw [if_pos hnull] at hsettles
    exact .inr (.inr ⟨hnull, hsettles⟩)
  rw [if_neg hnull] at hsettles
  cases hproblem : tree.bodies.findSome? Template.bodyProblem? with
  | none =>
    rw [hproblem] at hsettles
    exact .inl hsettles
  | some problem =>
    rw [hproblem] at hsettles
    obtain ⟨body, hbody, hbodyProblem⟩ := List.exists_of_findSome?_eq_some hproblem
    exact .inr (.inl ⟨body, hbody, problem, hbodyProblem, hsettles⟩)

/-- Accepted tokens fall into parts, with layouts and sections at the top level only, and the
tree is what the parts make. It stays the same, but for the position of the layout, wherever the
layout is named and whatever stands between the sections. All that can still refuse it is the
check of its bodies, or a name with a null character that none is checked under. -/
theorem accepted_parts_make {content : List Token} (hcontent : ∀ t ∈ content, t.kind ≠ .finish)
    {stop : Position} {tree : Tree} {orphans : List Position}
    (h : ofTokens (content ++ [⟨.finish, stop⟩]) = .ok (tree, orphans)) :
    ∃ parts, parts.flatMap Part.tokens = content ∧ Part.Make parts tree ∧
      (∀ parts' l l', Part.Moves parts parts' l l' → ∀ stop', ∃ orphans',
        ofTokens (parts'.flatMap Part.tokens ++ [⟨.finish, stop'⟩]) =
          .ok (.extension l'.position l.name tree.sections, orphans')) ∧
      ∀ s lenient, s.tokens = .ok (content ++ [⟨.finish, stop⟩]) →
        (Template.compile s lenient).Settles (.ok ⟨s, tree, lenient⟩) ∨
          (∃ body ∈ tree.bodies, ∃ problem, Template.bodyProblem? body = some problem ∧
            (Template.compile s lenient).Settles
              (.error (.fault (Template.problemFault s problem)))) ∨
          '\x00' ∈ (Template.place s).toList ∧
            (Template.compile s lenient).Settles (.error (.fault Template.badPlace)) := by
  obtain ⟨parts, htokens, hone, hassemble⟩ := parts_of_ofTokens hcontent h
  refine ⟨parts, htokens, Part.make_of_assemble hone hassemble, ?_, ?_⟩
  · intro parts' l l' hmoves stop'
    exact hmoves.make hassemble stop'
  · intro s lenient hs
    exact compile_read hs h lenient

/-- Two sections of one name around the layout they are put into, and a text that is dropped. -/
def moved : List Token :=
  [⟨.directive (.opening .sectionBlock) (some "'a'"), ⟨1, 0⟩⟩, ⟨.data "x", ⟨1, 13⟩⟩,
    ⟨.directive (.closing .sectionBlock) none, ⟨1, 14⟩⟩, ⟨.data "y", ⟨1, 25⟩⟩,
    ⟨.directive .layout (some "'l'"), ⟨2, 0⟩⟩,
    ⟨.directive (.opening .sectionBlock) (some "'b', z"), ⟨3, 0⟩⟩,
    ⟨.directive (.opening .sectionBlock) (some "'a', 1"), ⟨4, 0⟩⟩]

theorem moved_sections :
    ((ofTokens (moved ++ [⟨.finish, ⟨4, 19⟩⟩])).toOption.map fun read =>
      (read.1.layout?, read.1.sections.map fun s => (s.position, s.name), read.2)) =
        some (some "l", [(⟨4, 0⟩, "a"), (⟨3, 0⟩, "b")], [⟨1, 25⟩]) := by
  decide +kernel

theorem moved_parts_make :
    ∃ tree orphans, ofTokens (moved ++ [⟨.finish, ⟨4, 19⟩⟩]) = .ok (tree, orphans) ∧
      tree.sections.map (·.name) = ["a", "b"] ∧
      ∃ parts, parts.flatMap Part.tokens = moved ∧ Part.Make parts tree ∧
        (∀ parts' l l', Part.Moves parts parts' l l' → ∀ stop', ∃ orphans',
          ofTokens (parts'.flatMap Part.tokens ++ [⟨.finish, stop'⟩]) =
            .ok (.extension l'.position l.name tree.sections, orphans')) ∧
        ∀ s lenient, s.tokens = .ok (moved ++ [⟨.finish, ⟨4, 19⟩⟩]) →
          (Template.compile s lenient).Settles (.ok ⟨s, tree, lenient⟩) ∨
            (∃ body ∈ tree.bodies, ∃ problem, Template.bodyProblem? body = some problem ∧
              (Template.compile s lenient).Settles
                (.error (.fault (Template.problemFault s problem)))) ∨
            '\x00' ∈ (Template.place s).toList ∧
              (Template.compile s lenient).Settles (.error (.fault Template.badPlace)) := by
  have hcontent : ∀ t ∈ moved, t.kind ≠ .finish := by decide +kernel
  have hread := moved_sections
  cases h : ofTokens (moved ++ [⟨.finish, ⟨4, 19⟩⟩]) with
  | error e =>
    rw [h] at hread
    cases hread
  | ok read =>
    rw [h] at hread
    have hsections : read.1.sections.map (fun s => (s.position, s.name)) =
        [(⟨4, 0⟩, "a"), (⟨3, 0⟩, "b")] :=
      congrArg (·.2.1) (Option.some.inj hread)
    have hnames := congrArg (List.map Prod.snd) hsections
    rw [List.map_map] at hnames
    exact ⟨read.1, read.2, rfl, hnames, accepted_parts_make hcontent h⟩

end Tree

end Stencil
