import Stencil.Proofs.ErrorPlaces
import Stencil.Proofs.TopLevel

/-!
# Content that is dropped

A template that extends a layout keeps its sections alone. Each part at the top level that is a
node, and not of blank text, is told in a warning, in the order of the source. The warning tells
the line of the part's first token. Text is a token from its first character on, be it blank; so
this is the line of the first character to be seen if no line ends in front of that inside the
text, in a comment that stands in it or outside of one.
-/

namespace Stencil

open Text (Position isBlank)

/-- The token begins content that is dropped and told: it is not of blank text, and at the top
level no layout and no section begins with it. -/
def Token.isLoose (t : Token) : Bool :=
  match t.kind with
  | .data text => !text.isBlankText
  | .directive .layout _ => false
  | .directive (.opening .sectionBlock) _ => false
  | _ => true

namespace Segment

def IsBlank (s : Segment) : Prop := s.isText ∧ ∀ c ∈ s.literalText, isBlank c

/-- Text of which something can be seen is blank up to a character that can be seen. -/
theorem exists_seen {run : List Segment} (hrun : ∀ s ∈ run, s.isText)
    (h : ¬ ∀ c ∈ run.flatMap literalText, isBlank c) :
    ∃ passed c after, run = passed ++ literal c :: after ∧ (∀ s ∈ passed, s.IsBlank) ∧
      ¬ isBlank c := by
  induction run with
  | nil => exact absurd nofun h
  | cons s run ih =>
    obtain ⟨hs, hrun⟩ := List.forall_mem_cons.mp hrun
    by_cases hblank : ∀ c ∈ s.literalText, isBlank c
    · have hlater : ¬ ∀ c ∈ run.flatMap literalText, isBlank c := fun hlater =>
        h (by rw [List.flatMap_cons, List.forall_mem_append]; exact ⟨hblank, hlater⟩)
      obtain ⟨passed, c, after, rfl, hpassed, hc⟩ := ih hrun hlater
      exact ⟨s :: passed, c, after, rfl, List.forall_mem_cons.mpr ⟨⟨hs, hblank⟩, hpassed⟩, hc⟩
    · cases s with
      | literal c =>
        exact ⟨[], c, run, rfl, nofun, fun hc => hblank (List.forall_mem_singleton.mpr hc)⟩
      | comment body => exact absurd nofun hblank
      | _ => cases hs

/-- A token of literal text was made from a run of segments that begins with a character. -/
theorem Spelled.run_of {before : List Char} {segments : List Segment} {tokens : List Token}
    (h : Spelled before segments tokens) {t : Token} (ht : t ∈ tokens) {text : String}
    (hdata : t.kind = .data text) :
    ∃ done c run rest, segments = done ++ (literal c :: run ++ rest) ∧ (∀ s ∈ run, s.isText) ∧
      text.toList = (literal c :: run).flatMap literalText ∧
      t.position = .counted (before ++ done.flatMap source) := by
  induction h with
  | finish before =>
    cases List.mem_singleton.mp ht
    cases hdata
  | @comment before body rest tokens h ih =>
    obtain ⟨done, c, run, after, rfl, hrun, htext, hposition⟩ := ih ht
    refine ⟨Segment.comment body :: done, c, run, after, rfl, hrun, htext, ?_⟩
    rw [hposition, List.flatMap_cons, List.append_assoc]
  | @data before c run rest tokens hrun hrest h ih =>
    rcases List.mem_cons.mp ht with rfl | ht
    · cases hdata
      refine ⟨[], c, run, rest, rfl, hrun, String.toList_ofList, ?_⟩
      rw [List.flatMap_nil, List.append_nil]
    · obtain ⟨done, d, run', after, rfl, hrun', htext, hposition⟩ := ih ht
      refine ⟨literal c :: run ++ done, d, run', after, ?_, hrun', htext, ?_⟩
      · rw [List.append_assoc]
      · rw [hposition, List.flatMap_append, List.append_assoc]
  | @mark before s kind rest tokens hkind h ih =>
    rcases List.mem_cons.mp ht with rfl | ht
    · cases hdata
      cases s <;> cases hkind
    · obtain ⟨done, c, run, after, rfl, hrun, htext, hposition⟩ := ih ht
      refine ⟨s :: done, c, run, after, rfl, hrun, htext, ?_⟩
      rw [hposition, List.flatMap_cons, List.append_assoc]

end Segment

namespace Source

/-- The first character of a token that can be seen is `c`: the first one of its text that is not
blank, behind blanks and comments that were passed there, or the first one of its marker or its
directive. -/
inductive Begins (t : Token) : List Segment → Char → Prop
  | text {text : String} {passed : List Segment} {c : Char} {after : List Char}
      (ht : t.kind = .data text) (hpassed : ∀ s ∈ passed, s.IsBlank) (hc : ¬ isBlank c)
      (htext : text.toList = passed.flatMap Segment.literalText ++ c :: after) : Begins t passed c
  | mark {c : Char} {mark : List Char} (h : t.Shows (c :: mark)) : Begins t [] c

/-- A loose token begins to be seen behind what is passed from its position on. -/
theorem begins_of_loose {s : Source} {tokens : List Token} (htokens : s.tokens = .ok tokens)
    {t : Token} (ht : t ∈ tokens) (hloose : t.isLoose) (hfinish : t.kind ≠ .finish) :
    ∃ before passed c after,
      s.text.toList = before ++ passed.flatMap Segment.source ++ c :: after ∧
      t.position = .counted before ∧ Begins t passed c := by
  obtain ⟨segments, hcovers, hwritten, hspelled⟩ := Segment.spelled_of_tokens htokens
  cases hdata : t.isData with
  | true =>
    obtain ⟨text, hkind⟩ := Token.isData_iff.mp hdata
    obtain ⟨done, c, run, rest, rfl, hrun, htext, hposition⟩ := hspelled.run_of ht hkind
    have hseen : ¬ ∀ d ∈ (Segment.literal c :: run).flatMap Segment.literalText, isBlank d := by
      rw [← htext, ← List.all_eq_true]
      unfold Token.isLoose at hloose
      simpa [hkind, String.isBlankText] using hloose
    have hall : ∀ s ∈ Segment.literal c :: run, s.isText := List.forall_mem_cons.mpr ⟨rfl, hrun⟩
    obtain ⟨passed, d, after, hsplit, hpassed, hd⟩ := Segment.exists_seen hall hseen
    have hread : text.toList = passed.flatMap Segment.literalText ++
        d :: after.flatMap Segment.literalText := by
      rw [htext, hsplit, List.flatMap_append]
      rfl
    refine ⟨done.flatMap Segment.source, passed, d, (after ++ rest).flatMap Segment.source, ?_,
      hposition, .text hkind hpassed hd hread⟩
    rw [← hcovers, hsplit]
    simp [Segment.source]
  | false =>
    obtain ⟨before, mark, hbefore, hposition, hshows⟩ := shows_of_mem htokens ht hdata hfinish
    obtain ⟨c, -, hmark⟩ := hshows.head
    obtain ⟨tail, rfl⟩ := List.head?_eq_some_iff.mp hmark
    obtain ⟨more, hmore⟩ := hbefore
    refine ⟨before, [], c, tail ++ more, ?_, hposition, .mark hshows⟩
    rw [← hmore]
    simp

end Source

namespace Tree

/-- The node is not of blank text. -/
def IsSeen (n : Node) : Prop := ∀ p text, n = .data p text → ¬ text.isBlankText

def Item.isData : Item → Bool
  | .node (.data ..) => true
  | _ => false

namespace Reading

/-- What stands first at the top level stands at `q` and is not literal text; while nothing stands
there, the outermost open block does. None of the open blocks is a section. -/
structure StartsAt (q : Position) (r : Reading) : Prop where
  plain : ∀ f ∈ r.frames, f.opening.block ≠ .sectionBlock
  opened : r.items = [] → (r.frames.map (·.position)).getLast? = some q
  first : ∀ i, r.items.getLast? = some i → i.isData = false ∧ i.position = q

namespace StartsAt

variable {q : Position} {r r' : Reading} {t : Token}

theorem of_node {layout : Option Layout} {fs : List Frame} {items : List Item} {n : Node}
    (hplain : ∀ f ∈ fs, f.opening.block ≠ .sectionBlock)
    (hfirst : ∀ i, items.getLast? = some i → i.isData = false ∧ i.position = q)
    (hn : items = [] → (Item.node n).isData = false ∧ n.position = q) :
    StartsAt q ⟨layout, fs, .node n :: items⟩ where
  plain := hplain
  opened := nofun
  first i hi := by
    cases items with
    | nil =>
      cases hi
      exact hn rfl
    | cons j items => exact hfirst i hi

theorem push (h : r.StartsAt q) (n : Node) : (r.push n).StartsAt q := by
  unfold Reading.push
  have hplain := h.plain
  have hopened := h.opened
  split
  · rename_i hframes
    rw [hframes] at hopened
    exact of_node h.plain h.first fun hitems => nomatch hopened hitems
  · rename_i f fs hframes
    rw [hframes] at hopened hplain
    exact ⟨List.forall_mem_cons.mpr (List.forall_mem_cons.mp hplain), hopened, h.first⟩

/-- The node that the outermost block is closed to stands where the block was opened. -/
theorem close (h : r.StartsAt q) {f : Frame} {fs : List Frame} (hframes : r.frames = f :: fs) :
    (r.close f fs).StartsAt q := by
  have hopened := h.opened
  rw [hframes] at hopened
  obtain ⟨hf, hplain⟩ := List.forall_mem_cons.mp (hframes ▸ h.plain)
  have hpush {n : Node} (hn : (Item.node n).isData = false) (hposition : n.position = f.position) :
      StartsAt q ({ r with frames := fs }.push n) := by
    cases fs with
    | nil =>
      refine of_node hplain h.first fun hitems => ⟨hn, ?_⟩
      exact hposition.trans (Option.some.inj (hopened hitems))
    | cons g fs =>
      exact ⟨List.forall_mem_cons.mpr (List.forall_mem_cons.mp hplain), hopened, h.first⟩
  unfold Reading.close
  cases hopening : f.opening with
  | sectionOf name => exact absurd (by rw [hopening]; rfl) hf
  | _ => exact hpush rfl rfl

theorem nextBranch (h : r.StartsAt q) {f : Frame} {fs : List Frame} (hframes : r.frames = f :: fs)
    {o : Opening} (ho : o.block ≠ .sectionBlock) :
    StartsAt q { r with frames := ⟨f.position, o, []⟩ :: fs } := by
  have hopened := h.opened
  rw [hframes] at hopened
  obtain ⟨-, hplain⟩ := List.forall_mem_cons.mp (hframes ▸ h.plain)
  exact ⟨List.forall_mem_cons.mpr ⟨ho, hplain⟩, hopened, h.first⟩

theorem not_section_of_opens (ht : ¬ t.IsStructural) {o : Opening} (ho : t.Opens o) :
    o.block ≠ .sectionBlock := by
  intro hsection
  obtain ⟨arguments, hk⟩ := ho.kind
  rw [hsection] at hk
  exact ht (.inr ⟨arguments, hk⟩)

theorem does (h : r.StartsAt q) (ht : ¬ t.IsStructural) (hr' : r.Does t r') : r'.StartsAt q := by
  cases hr' with
  | push hn => exact h.push _
  | @enter o ho hinner =>
    refine ⟨List.forall_mem_cons.mpr ⟨not_section_of_opens ht ho, h.plain⟩, fun hitems => ?_,
      h.first⟩
    have hopened := h.opened hitems
    cases hframes : r.frames with
    | nil =>
      rw [hframes] at hopened
      cases hopened
    | cons f fs =>
      rw [hframes] at hopened
      rw [Reading.enter, hframes]
      exact hopened
  | branch hr hf hk hnext => exact h.nextBranch hr fun hblock => by cases hblock
  | lastBranch hr hf hk => exact h.nextBranch hr fun hblock => by cases hblock
  | close hr hk => exact h.close hr
  | inlineSection hk hinner => exact absurd (.inr ⟨_, hk⟩) ht
  | layout hk hinner hlayout => exact absurd (.inl ⟨_, hk⟩) ht
  | finish hk hr => exact h

/-- A token that is neither literal text, the end nor structural begins something else than
text. -/
theorem of_first (ht : ¬ t.IsStructural) (hdata : t.isData = false) (hfinish : t.kind ≠ .finish)
    (hr' : Reading.empty.Does t r') : r'.StartsAt t.position := by
  have hpush {n : Node} (hn : (Item.node n).isData = false) (hposition : n.position = t.position) :
      (Reading.empty.push n).StartsAt t.position :=
    of_node nofun (fun i hi => by cases hi) fun _ => ⟨hn, hposition⟩
  cases hr' with
  | push hn =>
    cases hn with
    | data hk => simp [Token.isData, hk] at hdata
    | _ => exact hpush rfl rfl
  | enter ho hinner =>
    have hplain := not_section_of_opens ht ho
    exact ⟨List.forall_mem_singleton.mpr hplain, fun _ => rfl, fun i hi => by cases hi⟩
  | branch hr hf hk hnext => cases hr
  | lastBranch hr hf hk => cases hr
  | close hr hk => cases hr
  | inlineSection hk hinner => exact absurd (.inr ⟨_, hk⟩) ht
  | layout hk hinner hlayout => exact absurd (.inl ⟨_, hk⟩) ht
  | finish hk hr => exact absurd hk hfinish

end StartsAt

end Reading

namespace Part

variable (p : Part)

theorem node_of_not_structural (h : ¬ p.first.IsStructural) : ∃ n, p.content = .item (.node n) := by
  have hstarts := p.starts
  generalize p.content = x at hstarts
  cases hstarts with
  | layout ht => exact absurd (.inl ht) h
  | «section» ht => exact absurd (.inr ht) h
  | node ht => exact ⟨_, rfl⟩

theorem not_structural_of_node {n : Node} (h : p.content = .item (.node n)) :
    ¬ p.first.IsStructural := by
  have hstarts := p.starts
  rw [h] at hstarts
  cases hstarts with
  | node ht => exact ht

/-- Of a part that begins with literal text nothing else is read. -/
theorem content_of_data {text : String} (ht : p.first.kind = .data text) :
    p.content = .item (.node (.data p.first.position text)) := by
  obtain ⟨n, hn⟩ := p.node_of_not_structural (Token.not_structural_of_kind ht nofun nofun)
  have hreads := p.reads
  have hstep : Reading.empty.step p.first =
      .ok (Reading.empty.push (.data p.first.position text)) := by
    unfold Reading.step
    rw [ht]
  rw [hn, List.foldlM_cons, Reading.ok_bind hstep,
    ← Reading.empty_behind (show (Reading.empty.push _).frames = [] from rfl),
    Reading.foldlM_behind fun _ _ _ => rfl] at hreads
  cases hrest : p.rest.foldlM Reading.step Reading.empty with
  | error e =>
    rw [hrest] at hreads
    cases hreads
  | ok r =>
    rw [hrest] at hreads
    have hitems : r.items ++ [.node (.data p.first.position text)] = [] ++ [.node n] :=
      congrArg Reading.items (Except.ok.inj hreads)
    obtain ⟨-, hlast⟩ := List.append_inj' hitems rfl
    cases hlast
    exact hn

/-- A part that begins with something else is no text, and it stands where it begins. -/
theorem startsAt_of_node {n : Node} (h : p.content = .item (.node n))
    (hdata : p.first.isData = false) (hfinish : p.first.kind ≠ .finish) :
    (Item.node n).isData = false ∧ n.position = p.first.position := by
  have ht := p.not_structural_of_node h
  have hreads := p.reads
  rw [List.foldlM_cons] at hreads
  obtain ⟨r, hstep, hrest⟩ := Reading.bind_ok hreads
  have hstarts := Reading.StartsAt.of_first ht hdata hfinish (Reading.does_of_step hstep)
  have hall := Reading.foldlM_keeps
    (fun t ht _ _ hr hdoes => hr.does (p.plain t ht) hdoes) hstarts hrest
  rw [h] at hall
  exact hall.first _ rfl

/-- A node stands where its part begins, and is literal text if its part begins with that. -/
theorem node_of_first {n : Node} (h : p.content = .item (.node n))
    (hfinish : p.first.kind ≠ .finish) :
    n.position = p.first.position ∧
      ∀ q text, n = .data q text → p.first.kind = .data text := by
  cases hdata : p.first.isData with
  | true =>
    obtain ⟨text, ht⟩ := Token.isData_iff.mp hdata
    cases h.symm.trans (p.content_of_data ht)
    refine ⟨rfl, ?_⟩
    rintro q text' ⟨⟩
    exact ht
  | false =>
    obtain ⟨hnode, hposition⟩ := p.startsAt_of_node h hdata hfinish
    refine ⟨hposition, ?_⟩
    rintro q text rfl
    cases hnode

/-- A part begins with a loose token if and only if it is a node that is not of blank text. -/
theorem isLoose_iff (hfinish : p.first.kind ≠ .finish) :
    p.first.isLoose ↔ ∃ n, p.content = .item (.node n) ∧ IsSeen n := by
  constructor
  · intro h
    have hstructural : ¬ p.first.IsStructural := by
      rintro (⟨arguments, hk⟩ | ⟨arguments, hk⟩) <;> simp [Token.isLoose, hk] at h
    obtain ⟨n, hn⟩ := p.node_of_not_structural hstructural
    refine ⟨n, hn, ?_⟩
    rintro q text rfl hblank
    have hk := (p.node_of_first hn hfinish).2 q text rfl
    simp [Token.isLoose, hk, hblank] at h
  · rintro ⟨n, hn, hseen⟩
    have hstructural := p.not_structural_of_node hn
    unfold Token.isLoose
    split
    · rename_i text hk
      cases hn.symm.trans (p.content_of_data hk)
      simpa using hseen _ _ rfl
    · rename_i arguments hk
      exact absurd (.inl ⟨arguments, hk⟩) hstructural
    · rename_i arguments hk
      exact absurd (.inr ⟨arguments, hk⟩) hstructural
    · rfl

end Part

theorem orphans_part (p : Part) (hfinish : p.first.kind ≠ .finish) :
    orphans p.content.item?.toList = if p.first.isLoose then [p.first.position] else [] := by
  have hloose := p.isLoose_iff hfinish
  cases hcontent : p.content with
  | layout l =>
    have hnot : ¬ p.first.isLoose := fun h => by
      obtain ⟨n, hn, -⟩ := hloose.mp h
      cases hcontent.symm.trans hn
    rw [if_neg hnot]
    rfl
  | item i =>
    cases i with
    | «section» own =>
      have hnot : ¬ p.first.isLoose := fun h => by
        obtain ⟨n, hn, -⟩ := hloose.mp h
        cases hcontent.symm.trans hn
      rw [if_neg hnot]
      rfl
    | node n =>
      have hposition := (p.node_of_first hcontent hfinish).1
      have hsilent : isSilent (.node n) = false ↔ IsSeen n := by
        unfold IsSeen
        cases n <;> simp [isSilent]
      by_cases h : p.first.isLoose
      · obtain ⟨n', hn', hseen⟩ := hloose.mp h
        cases hcontent.symm.trans hn'
        rw [if_pos h, ← hposition]
        simp [orphans, TopLevel.item?, hsilent.mpr hseen, Item.position]
      · have hblank : isSilent (.node n) = true := by
          rw [← Bool.not_eq_false, hsilent]
          exact fun hseen => h (hloose.mpr ⟨n, hcontent, hseen⟩)
        rw [if_neg h]
        simp [orphans, TopLevel.item?, hblank]

theorem orphans_items {parts : List Part} (h : ∀ p ∈ parts, p.first.kind ≠ .finish) :
    orphans (Part.items parts) = (parts.filter (·.first.isLoose)).map (·.first.position) := by
  induction parts with
  | nil => rfl
  | cons p parts ih =>
    obtain ⟨hp, hparts⟩ := List.forall_mem_cons.mp h
    have hitems : Part.items (p :: parts) = p.content.item?.toList ++ Part.items parts := by
      rw [Part.items, List.filterMap_cons]
      cases p.content.item? <;> rfl
    have hsplit : orphans (Part.items (p :: parts)) =
        orphans p.content.item?.toList ++ orphans (Part.items parts) := by
      rw [hitems, orphans, List.filter_append, List.map_append]
      rfl
    rw [hsplit, orphans_part p hp, ih hparts, List.filter_cons]
    cases p.first.isLoose <;> rfl

/-- What parts with a layout make: an extension of the layout, and the places of what it drops. -/
theorem assemble_parts {parts : List Part} (hone : (Part.layouts parts).length ≤ 1) {tree : Tree}
    {positions : List Position}
    (h : assemble (Part.layouts parts).head? (Part.items parts) = .ok (tree, positions))
    {layout : String} (hlayout : tree.layout? = some layout) :
    ∃ l, Part.layouts parts = [l] ∧ l.name = layout ∧ positions = orphans (Part.items parts) := by
  cases hlayouts : Part.layouts parts with
  | nil =>
    rw [hlayouts] at h
    unfold assemble at h
    simp only [List.head?_nil] at h
    split at h
    · cases h
    · cases h
      cases hlayout
  | cons l others =>
    rw [hlayouts] at h hone
    have hnone : others = [] := List.eq_nil_of_length_eq_zero (by simpa using hone)
    cases h
    exact ⟨l, by rw [hnone], Option.some.inj hlayout, rfl⟩

end Tree

/-- What is read of the tokens of a source, and the warnings about it. -/
theorem Source.tree_ofTokens {s : Source} {tree : Tree} {warnings : List String}
    (h : s.tree = .ok (tree, warnings)) :
    ∃ tokens positions, s.tokens = .ok tokens ∧ Tree.ofTokens tokens = .ok (tree, positions) ∧
      warnings = positions.map (s.orphanWarning (tree.layout?.getD "")) := by
  unfold Source.tree at h
  cases htokens : s.tokens with
  | error e =>
    rw [htokens] at h
    cases h
  | ok tokens =>
    rw [htokens] at h
    dsimp only at h
    cases hread : Tree.ofTokens tokens with
    | error e =>
      rw [hread] at h
      cases h
    | ok read =>
      rw [hread] at h
      cases h
      exact ⟨tokens, read.2, rfl, hread, rfl⟩

theorem Source.extension_of_read {s : Source} {layout : String} {warnings : List String}
    (h : s.tree.toOption.map (fun read => (read.1.layout?, read.2)) =
      some (some layout, warnings)) :
    ∃ tree, s.tree = .ok (tree, warnings) ∧ tree.layout? = some layout := by
  cases htree : s.tree with
  | error e =>
    rw [htree] at h
    cases h
  | ok read =>
    rw [htree] at h
    obtain ⟨hlayout, hwarnings⟩ := Prod.mk.inj (Option.some.inj h)
    exact ⟨read.1, by rw [← hwarnings], hlayout⟩

theorem line_counted_append (before passed : List Char) :
    (Position.counted (before ++ passed)).line = (Position.counted before).line ↔
      '\n' ∉ passed := by
  rw [Position.counted, Position.counted, List.count_append, ← List.count_eq_zero]
  dsimp only
  omega

open Stencil.Tree in
/-- Of an extending template each part that is a node, and not of blank text, is told in one
warning, in the order of the source, and nothing else is. The line that is told is that of the
first character to be seen if and only if no line ends between the part's first token and that. -/
theorem orphans_told {s : Source} {tree : Tree} {warnings : List String} {layout : String}
    (h : s.tree = .ok (tree, warnings)) (hlayout : tree.layout? = some layout) :
    ∃ (parts : List Part) (l : Layout) (stop : Position),
      s.tokens = .ok (parts.flatMap Part.tokens ++ [⟨.finish, stop⟩]) ∧
      Part.layouts parts = [l] ∧ l.name = layout ∧
      warnings = (parts.filter (·.first.isLoose)).map
        (s.orphanWarning layout ·.first.position) ∧
      ∀ p ∈ parts, (p.first.isLoose ↔ ∃ n, p.content = .item (.node n) ∧ IsSeen n) ∧
        (p.first.isLoose → ∃ before passed c after,
          s.text.toList = before ++ passed.flatMap Segment.source ++ c :: after ∧
          p.first.position = .counted before ∧ Source.Begins p.first passed c ∧
          ((Position.counted (before ++ passed.flatMap Segment.source)).line =
            p.first.position.line ↔ '\n' ∉ passed.flatMap Segment.source)) := by
  obtain ⟨tokens, positions, htokens, hread, rfl⟩ := s.tree_ofTokens h
  obtain ⟨segments, -, -, hspelled⟩ := Segment.spelled_of_tokens htokens
  obtain ⟨content, rfl, hfinish⟩ := hspelled.ends_once
  obtain ⟨parts, rfl, hone, hassemble⟩ := parts_of_ofTokens hfinish hread
  obtain ⟨l, hl, hname, rfl⟩ := assemble_parts hone hassemble hlayout
  have hfirst (p : Part) (hp : p ∈ parts) : p.first ∈ parts.flatMap Part.tokens :=
    List.mem_flatMap.mpr ⟨p, hp, List.mem_cons_self⟩
  have hparts (p : Part) (hp : p ∈ parts) : p.first.kind ≠ .finish := hfinish _ (hfirst p hp)
  refine ⟨parts, l, _, htokens, hl, hname, ?_, fun p hp => ⟨p.isLoose_iff (hparts p hp), ?_⟩⟩
  · rw [orphans_items hparts, hlayout, List.map_map]
    rfl
  · intro hloose
    obtain ⟨before, passed, c, after, htext, hposition, hbegins⟩ := Source.begins_of_loose htokens
      (List.mem_append_left _ (hfirst p hp)) hloose (hparts p hp)
    refine ⟨before, passed, c, after, htext, hposition, hbegins, ?_⟩
    rw [hposition]
    exact line_counted_append before _

/-- Text with a comment in it, and a conditional behind a section and blank lines. -/
def looseSource : Source :=
  ⟨"@extends('a') b\x7b\x7b-- \n --\x7d\x7dc\n@section('s', 1)\n  \n@if(x)d@endif", some "page",
    none⟩

open Stencil.Tree in
theorem loose_source_told :
    ∃ tree, looseSource.tree = .ok (tree,
        [looseSource.orphanWarning "a" ⟨1, 13⟩, looseSource.orphanWarning "a" ⟨5, 0⟩]) ∧
      tree.layout? = some "a" ∧
      ∃ (parts : List Part) (l : Layout) (stop : Position),
        looseSource.tokens = .ok (parts.flatMap Part.tokens ++ [⟨.finish, stop⟩]) ∧
        Part.layouts parts = [l] ∧ l.name = "a" ∧
        [looseSource.orphanWarning "a" ⟨1, 13⟩, looseSource.orphanWarning "a" ⟨5, 0⟩] =
          (parts.filter (·.first.isLoose)).map
            (looseSource.orphanWarning "a" ·.first.position) ∧
        ∀ p ∈ parts, (p.first.isLoose ↔ ∃ n, p.content = .item (.node n) ∧ IsSeen n) ∧
          (p.first.isLoose → ∃ before passed c after,
            looseSource.text.toList = before ++ passed.flatMap Segment.source ++ c :: after ∧
            p.first.position = .counted before ∧ Source.Begins p.first passed c ∧
            ((Position.counted (before ++ passed.flatMap Segment.source)).line =
              p.first.position.line ↔ '\n' ∉ passed.flatMap Segment.source)) := by
  have hread : looseSource.tree.toOption.map (fun read => (read.1.layout?, read.2)) =
      some (some "a",
        [looseSource.orphanWarning "a" ⟨1, 13⟩, looseSource.orphanWarning "a" ⟨5, 0⟩]) := by
    decide +kernel
  obtain ⟨tree, htree, hlayout⟩ := Source.extension_of_read hread
  exact ⟨tree, htree, hlayout, orphans_told htree hlayout⟩

/-- Text on a line of its own behind the layout. -/
def straySource : Source :=
  ⟨"@extends('a')\nstray text\n@section('s') x @endsection", none, none⟩

/-- The text is told at the line on which the one in front of it ends. -/
theorem stray_text_told_above :
    ∃ tree, straySource.tree = .ok (tree, [straySource.orphanWarning "a" ⟨1, 13⟩]) ∧
      tree.layout? = some "a" ∧ (straySource.text.toList.splitOn '\n')[0]? =
        some "@extends('a')".toList ∧
      (straySource.text.toList.splitOn '\n')[1]? = some "stray text".toList := by
  have hread : straySource.tree.toOption.map (fun read => (read.1.layout?, read.2)) =
      some (some "a", [straySource.orphanWarning "a" ⟨1, 13⟩]) := by
    decide +kernel
  obtain ⟨tree, htree, hlayout⟩ := Source.extension_of_read hread
  exact ⟨tree, htree, hlayout, by decide +kernel, by decide +kernel⟩

end Stencil
