import Stencil.Proofs.ErrorPlaces
import Stencil.Proofs.LineEnds
import Stencil.Proofs.Trails

/-!
# Excerpts of a source

There is an excerpt for the line of every character of a source, hence for every syntax error and
for every failure that a construct is reported with. Lines are told as newlines count them, and an
excerpt cuts the source at every line end; it shows the line that is told if in the lines above a
newline is the only line end, a carriage return in front of it apart.
-/

namespace Stencil

open Text (Position IsPlain joined visible isLineEnd)
open Render

/-- Newlines are the only line ends above the line on which the text in front ends. -/
def PlainAbove (text : String) (before : List Char) : Prop :=
  ∀ l ∈ (text.toList.splitOn '\n').take (before.count '\n'), IsPlain l

instance (text : String) (before : List Char) : Decidable (PlainAbove text before) :=
  inferInstanceAs (Decidable (∀ l ∈ _, _))

namespace Snippet

def atFault (s : Snippet) : List String := (s.lines.filter (·.1 = s.errorLine)).map (·.2)

/-- The excerpt has one line for that of the character `c` behind `before`. If the lines above are
plain, it shows the line of the text up to its first line end, and if the line is plain itself,
the column of the position is that of the character. -/
structure Shows (s : Snippet) (text : String) (before : List Char) (c : Char) : Prop where
  errorLine : s.errorLine = ((Position.counted before).line : Int)
  atFault : ∃ l shown, (text.toList.splitOn '\n')[before.count '\n']? = some l ∧
    s.atFault = [shown] ∧
    (PlainAbove text before → shown.toList = visible l ∧
      (IsPlain l → ¬ isLineEnd c →
        shown.toList[(Position.counted before).column]? = some c))

/-- Of lines that are numbered on from `first`, one has a given number; those in front of it have
lower and those behind it higher ones. -/
theorem numbered_around {ls : List String} {l : String} {j : Nat} (h : ls[j]? = some l)
    (first : Nat) :
    ∃ above below, ls.zipIdx.map (fun (text, i) => (((first + i + 1 : Nat) : Int), text)) =
        above ++ (((first + j + 1 : Nat) : Int), l) :: below ∧
      (∀ x ∈ above, x.1 < ((first + j + 1 : Nat) : Int)) ∧
      ∀ x ∈ below, ((first + j + 1 : Nat) : Int) < x.1 := by
  obtain ⟨hj, rfl⟩ := List.getElem?_eq_some_iff.mp h
  have hsplit : ls.zipIdx =
      (ls.take j).zipIdx ++ (ls[j], j) :: (ls.drop (j + 1)).zipIdx (j + 1) := by
    conv_lhs => rw [← List.take_append_drop j ls, List.drop_eq_getElem_cons hj]
    rw [List.zipIdx_append, List.zipIdx_cons, List.length_take_of_le hj.le, Nat.zero_add]
  rw [hsplit, List.map_append, List.map_cons]
  refine ⟨_, _, rfl, ?_, ?_⟩
  · rintro x hx
    obtain ⟨⟨text, i⟩, hi, rfl⟩ := List.mem_map.mp hx
    have hlt := List.snd_lt_add_of_mem_zipIdx hi
    rw [List.length_take_of_le hj.le] at hlt
    dsimp only at hlt ⊢
    omega
  · rintro x hx
    obtain ⟨⟨text, i⟩, hi, rfl⟩ := List.mem_map.mp hx
    have hle := List.le_snd_of_mem_zipIdx hi
    dsimp only at hle ⊢
    omega

/-- An excerpt around a line that exists holds this line once, between some of those above and some
of those below. -/
theorem build?_around {source l : String} {k : Nat} (hl : source.textLines[k]? = some l)
    (context : Nat) (column : Option Int) :
    ∃ above below, build? source ((k + 1 : Nat) : Int) context column =
        some ⟨above ++ (((k + 1 : Nat) : Int), l) :: below, ((k + 1 : Nat) : Int), column⟩ ∧
      (∀ x ∈ above, x.1 < ((k + 1 : Nat) : Int)) ∧ ∀ x ∈ below, ((k + 1 : Nat) : Int) < x.1 := by
  obtain ⟨hk, -⟩ := List.getElem?_eq_some_iff.mp hl
  have hinside : 0 < ((k + 1 : Nat) : Int) ∧ ((k + 1 : Nat) : Int) ≤ source.textLines.length := by
    omega
  have hfirst : (((k + 1 : Nat) : Int) - 1 - context).toNat = k - context := by omega
  obtain ⟨count, hcount, hinner⟩ : ∃ count : Nat,
      (min (source.textLines.length : Int) (((k + 1 : Nat) : Int) + context) -
        ((k - context : Nat) : Int)).toNat = count ∧ k - (k - context) < count :=
    ⟨_, rfl, by omega⟩
  have hat : ((source.textLines.drop (k - context)).take count)[k - (k - context)]? = some l := by
    rw [List.getElem?_take_of_lt hinner, List.getElem?_drop, Nat.add_sub_cancel' (Nat.sub_le _ _), hl]
  obtain ⟨above, below, hlines, habove, hbelow⟩ := numbered_around hat (k - context)
  rw [Nat.add_sub_cancel' (Nat.sub_le _ _)] at hlines habove hbelow
  refine ⟨above, below, ?_, habove, hbelow⟩
  unfold build?
  dsimp only
  rw [if_pos hinside, hfirst, hcount, hlines]

/-- Where one line has the number of the line at fault, it is what the excerpt shows there. -/
theorem atFault_around {above below : List (Int × String)} {n : Int} {l : String}
    {column : Option Int} (habove : ∀ x ∈ above, x.1 < n) (hbelow : ∀ x ∈ below, n < x.1) :
    atFault ⟨above ++ (n, l) :: below, n, column⟩ = [l] := by
  have hnone : ∀ x ∈ above, ¬ decide (x.1 = n) := fun x hx => by
    simpa using Int.ne_of_lt (habove x hx)
  have hnone' : ∀ x ∈ below, ¬ decide (x.1 = n) := fun x hx => by
    simpa using Int.ne_of_gt (hbelow x hx)
  rw [atFault, List.filter_append, List.filter_cons_of_pos (by simp),
    List.filter_eq_nil_iff.mpr hnone, List.filter_eq_nil_iff.mpr hnone']
  rfl

/-- For every character of a source there is an excerpt of its line. -/
theorem build?_shows {text : String} {before more : List Char} {c : Char}
    (htext : text.toList = before ++ c :: more) (context : Nat) (column : Option Int) :
    ∃ s, build? text (Position.counted before).line context column = some s ∧
      s.column = column ∧ s.Shows text before c := by
  obtain ⟨ls, start, rfl, hls, hstart⟩ := Text.exists_joined before
  rw [List.append_assoc] at htext
  have hrest : start ++ c :: more ≠ [] := List.append_ne_nil_of_right_ne_nil _ nofun
  have hcounted := Text.counted_joined hls hstart
  have hcount := Text.count_joined hls hstart
  have hsplit : text.toList.splitOn '\n' = ls ++ (start ++ c :: more).splitOn '\n' := by
    rw [htext, Text.splitOn_joined hls]
  have hlength : ls.length < text.textLines.length := by
    rw [String.textLines, List.length_map, htext]
    exact Text.length_lines_joined hrest
  obtain ⟨above, below, hbuild, habove, hbelow⟩ :=
    build?_around (List.getElem?_eq_getElem hlength) context column
  refine ⟨_, by rw [hcounted, hbuild], rfl, by rw [hcounted], Text.firstLine (start ++ c :: more), _,
    ?_, atFault_around habove hbelow, fun hplain => ?_⟩
  · rw [hcount, hsplit, List.getElem?_append_right le_rfl, Nat.sub_self, Text.splitOn_head]
  · unfold PlainAbove at hplain
    rw [hcount, hsplit, List.take_left] at hplain
    obtain ⟨more', hhead⟩ := Text.lines_head hrest
    have hline : text.textLines[ls.length]? = some (String.ofList (visible (start ++ c :: more))) := by
      rw [String.textLines, htext, Text.lines_joined_plain hplain, hhead, List.getElem?_map,
        List.getElem?_append_right (by rw [List.length_map]), List.length_map, Nat.sub_self]
      rfl
    have hshown : text.textLines[ls.length].toList = visible (Text.firstLine (start ++ c :: more)) := by
      rw [Option.some.inj ((List.getElem?_eq_getElem hlength).symm.trans hline),
        String.toList_ofList, Text.visible_firstLine]
    refine ⟨hshown, fun hown hc => ?_⟩
    have hnewline : c ≠ '\n' := fun h => hc (h ▸ Text.isLineEnd_newline)
    have hfirst : Text.firstLine (start ++ c :: more) = start ++ c :: Text.firstLine more := by
      rw [Text.firstLine_append hstart]
      exact congrArg _ (List.takeWhile_cons_of_pos (decide_eq_true hnewline))
    rw [hshown, hcounted]
    refine hown.getElem?_visible hc ?_
    rw [hfirst, List.getElem?_append_right le_rfl, Nat.sub_self]
    rfl

end Snippet

theorem nonEmpty_of_toList {text : String} (h : text.toList ≠ []) :
    nonEmpty (some text) = some text :=
  if_neg fun hempty => h (String.toList_eq_nil_iff.mpr (String.isEmpty_iff.mp hempty))

theorem nonZero_of_pos {k : Nat} (h : 0 < k) : nonZero (some (k : Int)) = some (k : Int) :=
  if_neg (Int.natCast_ne_zero.mpr h.ne')

theorem Source.PointsAt.snippet? {s : Source} {before mark : List Char} {e : SyntaxError}
    (h : s.PointsAt before mark e) (htext : s.text.toList ≠ []) (context : Int) :
    e.snippet? context =
      Snippet.build? s.text (Position.counted before).line context e.column := by
  have hsource : e.source = some s.text := by cases h <;> rfl
  have hline : 0 < (Position.counted before).line := Nat.succ_pos _
  rw [SyntaxError.snippet?, hsource, h.position.1, nonEmpty_of_toList htext, nonZero_of_pos hline]

/-- Every syntax error of a source has an excerpt of the line it points at. -/
theorem Source.snippet?_of_malformed {s : Source} {e : SyntaxError}
    (h : s.tree = .error (.template (.malformed e))) (context : Nat) :
    ∃ before c more snippet, s.text.toList = before ++ c :: more ∧
      e.line = some ((Position.counted before).line : Int) ∧
      e.column = some ((Position.counted before).column : Int) ∧
      e.snippet? context = some snippet ∧ snippet.column = e.column ∧
      snippet.Shows s.text before c ∧ ¬ isLineEnd c := by
  obtain ⟨before, mark, hbefore, hpoints⟩ := s.pointsAt_of_malformed h
  obtain ⟨c, hc, hmark⟩ := hpoints.head
  obtain ⟨tail, rfl⟩ := List.head?_eq_some_iff.mp hmark
  obtain ⟨more, hmore⟩ := hbefore
  rw [List.append_assoc] at hmore
  have htext : s.text.toList ≠ [] := hmore ▸ List.append_ne_nil_of_right_ne_nil _ nofun
  obtain ⟨snippet, hbuild, hcolumn, hshows⟩ := Snippet.build?_shows hmore.symm context e.column
  obtain ⟨hline, hat⟩ := hpoints.position
  have hall : (['\x7b', '@', '('].all fun c => !isLineEnd c) = true := by decide
  have hend : ¬ isLineEnd c := by simpa using List.all_eq_true.mp hall c hc
  exact ⟨before, c, tail ++ more, snippet, hmore.symm, hline, hat,
    (hpoints.snippet? htext context).trans hbuild, hcolumn, hshows, hend⟩

/-- What a render stops with tells no place, a template that could not be entered, or the line of
a character of a template, whose source the boundary excerpts. -/
inductive Stop.IsExcerpted : Stop → Prop
  | outOfSteps : IsExcerpted .outOfSteps
  | fault (f : Fault) : IsExcerpted (.failed (.fault f))
  | unplaced {err : TemplateError} (herr : err.failure? = none) :
      IsExcerpted (.failed (.template err))
  | entrance {b : Boundary} (hline : b.line = 0) :
      IsExcerpted (.failed (.template (b.failure .tooRecursive)))
  | placed {t : Template} {before more : List Char} {c : Char} {b : Boundary} {cause : Cause}
      (ht : t.IsRead) (htext : t.source.text.toList = before ++ c :: more)
      (hsource : b.source = some t.source.text) (hline : b.line = (Position.counted before).line) :
      IsExcerpted (.failed (.template (b.report cause)))

namespace Render

variable {env : Environment} {ev : Evaluator} {n : Nat} {e e' : Entry} {a : Act} {w w' : World}
  {s : Stop}

theorem Part.template_of_body? {p : Part} {t : Template} {path : String} {ns : List Node}
    (h : p.body? = some (t, path, ns)) : t = p.template := by
  unfold Part.body? at h
  split at h
  · cases h
    rfl
  · split at h
    · cases h
      rfl
    · cases h

/-- An entry renders templates that were read, in a boundary that excerpts the source of its
own. -/
structure Entry.IsSourced (e : Entry) : Prop where
  read : e.From Template.IsRead
  source : e.boundary.source = some e.part.template.source.text

theorem Entry.IsSourced.template (h : e.IsSourced) : e.part.template.IsRead := by
  have hpart := h.read.part
  cases hp : e.part with
  | whole t => rwa [hp] at hpart
  | sectionBody s =>
    rw [hp] at hpart
    exact hpart.1

/-- What is entered from an entry excerpts the source of its own template. -/
theorem Entry.Leads.isSourced (h : e.Leads env e') (he : e.IsSourced) : e'.IsSourced where
  read := h.from (fun _ _ _ _ _ hload => (Environment.loadUnder_ok hload).2) he.read
  source := by cases h <;> rfl

/-- The acts of an entry show lines of its template, each that of a character. -/
theorem Entry.Acts.line_denotes (ha : e.Acts env ev n w a) (he : e.IsSourced) :
    ∀ k ∈ a.line :: a.passed, ∃ before c more,
      e.part.template.source.text.toList = before ++ c :: more ∧
        k = (Position.counted before).line := by
  have hmarks := he.template.marks (P := fun k => ∃ before c more,
    e.part.template.source.text.toList = before ++ c :: more ∧
      k = (Position.counted before).line) fun before c more htext => ⟨before, c, more, htext, rfl⟩
  cases ha with
  | body hp hf hm =>
    obtain ⟨-, hns⟩ := body_from he.read hp
    cases Part.template_of_body? hp
    exact fun k hk => hmarks.1 _ hns k (hm.lines_subset hk)
  | layout hp ht =>
    intro k hk
    rw [hp] at hmarks ⊢
    rw [List.mem_singleton.mp hk]
    exact hmarks.2 _ _ _ ht

/-- What an entry reports at a line that an act of it shows is excerpted. -/
theorem Entry.Acts.report_excerpted (ha : e.Acts env ev n w a) (he : e.IsSourced) {line : Nat}
    (hline : line ∈ a.line :: a.passed) (cause : Cause) :
    Stop.IsExcerpted (.failed (.template ((e.boundary.atLine line).report cause))) := by
  obtain ⟨before, c, more, htext, rfl⟩ := ha.line_denotes he line hline
  exact .placed he.template htext he.source rfl

theorem Entry.Acts.fault_excerpted (ha : e.Acts env ev n w a) (he : e.IsSourced) {line : Nat}
    (hline : line ∈ a.line :: a.passed) (f : Fault) :
    (Action.reported (e.boundary.atLine line) (.failed (.fault f))).IsExcerpted := by
  cases hf : f.inWriting? with
  | none =>
    rw [Action.reported_told _ hf]
    exact ha.report_excerpted he hline (.fault f)
  | some g =>
    rw [Action.reported_untold _ hf]
    exact .fault g

/-- What an act of an entry stops with is excerpted by the boundary of the entry. -/
theorem Entry.Acts.stop_excerpted {b : Boundary} (ha : e.Acts env ev n w a) (he : e.IsSourced)
    (hs : a.action.run a.world = .error s w') :
    (Action.reported (w'.boundary.getD b) s).IsExcerpted := by
  obtain ⟨line, hline, hw⟩ := ha.shows
  obtain ⟨hb, hraised⟩ := ha.stays.raises hs
  rw [hb, hw]
  rcases hraised with hraised | ⟨name, here, -, hdeep, -⟩
  · rw [hw] at hraised
    cases hraised with
    | fault f => exact ha.fault_excerpted he hline f
    | missing name available => exact ha.report_excerpted he hline (.missing name available)
    | unplaced herr => exact .unplaced (TemplateError.failure?_of_stack? herr)
    | outOfSteps => exact .outOfSteps
  · cases hdeep
    exact .unplaced rfl

/-- However deep the render has gone, what it stops with is excerpted where it was raised. The
induction is on the boundaries that may still be entered. -/
theorem render_stop_excerpted (n : Nat) : ∀ {e : Entry} {w w' : World} {s : Stop}, e.IsSourced →
    (e.render (part env ev n)).run w = .error s w' → s.IsExcerpted := by
  induction n with
  | zero =>
    intro e w w' s he h
    obtain ⟨s₁, w₁, hrun, rfl⟩ := within_stopped h
    cases hrun
    exact .entrance e.unmarked
  | succ n ih =>
    intro e w w' s he h
    obtain ⟨s₁, w₁, hrun, rfl⟩ := within_stopped h
    obtain ⟨a, ha, hstop | ⟨e', w₂, hmade, hinside⟩⟩ := part_stopped hrun
    · exact ha.stop_excerpted he hstop
    · obtain ⟨line, hline, hw₁⟩ := shown_behind ha hmade hinside
      have hstop := ih ((ha.leads hmade).isSourced he) hinside
      cases hstop with
      | outOfSteps => exact .outOfSteps
      | fault f =>
        rw [hw₁]
        exact ha.fault_excerpted he hline f
      | unplaced herr => exact .unplaced herr
      | entrance hline => exact .entrance hline
      | placed ht htext hsource hline => exact .placed ht htext hsource hline

end Render

theorem Template.renderBy_excerpted {ev : Evaluator} {env : Environment} {t : Template}
    (ht : t.IsRead) {data : Value} {more : Bindings} {w w' : World} {err : TemplateError}
    (h : (t.renderBy ev env data more).run w = .error (.failed (.template err)) w') :
    Stop.IsExcerpted (.failed (.template err)) := by
  rw [Template.renderBy_eq] at h
  rcases Action.bind_error h with h | ⟨r, w₁, -, h⟩
  · obtain ⟨fault, hfault⟩ := Template.startData_stopped h
    cases hfault
  · have hentry : (t.entry env r).IsSourced := ⟨⟨ht, Sections.from_nil⟩, rfl⟩
    exact render_stop_excerpted env.host.room hentry h

/-- A failure shows an excerpt of the line it tells, unless a template could not be entered. -/
theorem Stop.IsExcerpted.failure {err : TemplateError}
    (h : Stop.IsExcerpted (.failed (.template err))) {f : RenderFailure}
    (hf : err.failure? = some f) :
    (f.cause = some .tooRecursive ∧ f.line = none ∧ f.snippet = none) ∨
      ∃ (t : Template) (before more : List Char) (c : Char) (snippet : Snippet), t.IsRead ∧
        t.source.text.toList = before ++ c :: more ∧
        f.line = some ((Position.counted before).line : Int) ∧ f.snippet = some snippet ∧
        snippet.Shows t.source.text before c := by
  generalize hs : Stop.failed (.template err) = s at h
  cases h with
  | outOfSteps => cases hs
  | fault g => cases hs
  | unplaced herr =>
    cases hs
    cases herr.symm.trans hf
  | @entrance b hline =>
    cases hs
    cases hf
    refine .inl ⟨rfl, ?_, ?_⟩
    · rw [hline]
      rfl
    · rw [Boundary.snippet?, hline]
      cases nonEmpty b.source <;> rfl
  | @placed t before more c b cause ht htext hsource hline =>
    cases hs
    obtain ⟨snippet, hbuild, -, hshows⟩ := Snippet.build?_shows htext 2 none
    have hempty : t.source.text.toList ≠ [] :=
      htext ▸ List.append_ne_nil_of_right_ne_nil _ nofun
    have hpos : 0 < (Position.counted before).line := Nat.succ_pos _
    have hsnippet : b.snippet? = some snippet := by
      rw [Boundary.snippet?, hsource, hline, nonEmpty_of_toList hempty, nonZero_of_pos hpos]
      exact hbuild
    obtain ⟨hat, hshown⟩ : f.line = some b.line ∧ f.snippet = b.snippet? := by
      cases cause with
      | fault fault =>
        cases hf
        exact ⟨hline ▸ nonZero_of_pos hpos, rfl⟩
      | missing name available =>
        cases hf
        exact ⟨rfl, rfl⟩
    exact .inr ⟨t, before, more, c, snippet, ht, htext, hline ▸ hat, hshown.trans hsnippet, hshows⟩

/-- Every position of a character in a source has an excerpt; so has every syntax error of a
source, and every failure of a render that a construct is reported with. It shows the line that is
told, of which the column is that of the character, where the lines above are plain. -/
theorem excerpts_show_told_lines (s : Source) (env : Environment) (ev : Evaluator) :
    (∀ (before more : List Char) (c : Char), s.text.toList = before ++ c :: more →
      ∀ (context : Nat) (column : Option Int), ∃ snippet,
        Snippet.build? s.text (Position.counted before).line context column = some snippet ∧
          snippet.column = column ∧ snippet.Shows s.text before c) ∧
    (∀ e : SyntaxError, s.tree = .error (.template (.malformed e)) →
      ∀ context : Nat, ∃ before c more snippet, s.text.toList = before ++ c :: more ∧
        e.line = some ((Position.counted before).line : Int) ∧
        e.column = some ((Position.counted before).column : Int) ∧
        e.snippet? context = some snippet ∧ snippet.column = e.column ∧
        snippet.Shows s.text before c ∧ ¬ isLineEnd c) ∧
    ∀ t : Template, t.IsRead → ∀ (data : Value) (more : Bindings) (w w' : World)
      (err : TemplateError) (f : RenderFailure),
      (t.renderBy ev env data more).run w = .error (.failed (.template err)) w' →
      err.failure? = some f →
      (f.cause = some .tooRecursive ∧ f.line = none ∧ f.snippet = none) ∨
        ∃ (u : Template) (before more : List Char) (c : Char) (snippet : Snippet), u.IsRead ∧
          u.source.text.toList = before ++ c :: more ∧
          f.line = some ((Position.counted before).line : Int) ∧ f.snippet = some snippet ∧
          snippet.Shows u.source.text before c :=
  ⟨fun _ _ _ htext context column => Snippet.build?_shows htext context column,
    fun _ h context => Source.snippet?_of_malformed h context,
    fun _ ht _ _ _ _ _ _ h hf => (Template.renderBy_excerpted ht h).failure hf⟩

/-- An expression is missing on the third line; carriage returns stand in front of newlines. -/
def returnsSource : Source := ⟨"@if(x)\r\n\r\na \x7b\x7b \x7d\x7d", some "page", none⟩

def returnsError : SyntaxError :=
  returnsSource.errorAt "Empty expression" .invalidExpression ⟨3, 2⟩

theorem returns_show_told_line :
    returnsSource.tree = .error (.template (.malformed returnsError)) ∧
      PlainAbove returnsSource.text "@if(x)\r\n\r\na ".toList ∧
      ∃ before c more snippet, returnsSource.text.toList = before ++ c :: more ∧
        returnsError.line = some ((Position.counted before).line : Int) ∧
        returnsError.column = some ((Position.counted before).column : Int) ∧
        returnsError.snippet? (1 : Nat) = some snippet ∧ snippet.column = returnsError.column ∧
        snippet.Shows returnsSource.text before c ∧ ¬ isLineEnd c := by
  have herror : returnsSource.tree = .error (.template (.malformed returnsError)) := by
    decide +kernel
  obtain ⟨-, hshows, -⟩ := excerpts_show_told_lines returnsSource (.ofTable []) .standard
  exact ⟨herror, by decide +kernel, hshows returnsError herror 1⟩

/-- A line separator above the missing expression; newlines do not count it. -/
def separatedSource : Source := ⟨"a\u2028b\n\x7b\x7b \x7d\x7d", some "page", none⟩

def separatedError : SyntaxError :=
  separatedSource.errorAt "Empty expression" .invalidExpression ⟨2, 0⟩

/-- Where a line above has another line end, the excerpt shows a line above. -/
theorem separator_hides_told_line :
    separatedSource.tree = .error (.template (.malformed separatedError)) ∧
      (separatedSource.text.toList.splitOn '\n')[1]? = some "\x7b\x7b \x7d\x7d".toList ∧
      separatedError.snippet? 0 = some ⟨[(2, "b")], 2, some 0⟩ := by
  decide +kernel

end Stencil
