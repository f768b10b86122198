import Stencil.Proofs.Decoration

/-!
# Colors of error messages

The messages of errors are laid out alike with colors on and off: excerpts, stacks of templates,
hints and headlines are decorated texts over the texts without colors. So taking the colors off
gives the plain message, and also the plain message behind its code, where the code is put in front
unless the message has it.
-/

namespace Stencil

open Terminal (IsPlain IsApart Decorated)

namespace Text

theorem mem_of_mem_lines {s l : List Char} {c : Char} (hl : l ∈ lines s) (hc : c ∈ l) : c ∈ s := by
  fun_induction lines s generalizing l with
  | case1 => cases hl
  | case2 s ih =>
    rcases List.mem_cons.mp hl with rfl | hl
    · cases hc
    · exact List.mem_cons_of_mem _ (List.mem_cons_of_mem _ (ih hl hc))
  | case3 d s _ _ ih =>
    rcases List.mem_cons.mp hl with rfl | hl
    · cases hc
    · exact List.mem_cons_of_mem _ (ih hl hc)
  | case4 d s _ _ hnone ih =>
    rw [List.mem_singleton.mp hl] at hc
    exact List.mem_cons.mpr (.inl (List.mem_singleton.mp hc))
  | case5 d s _ _ first rest hsome ih =>
    rw [hsome] at ih
    rcases List.mem_cons.mp hl with rfl | hl
    · rcases List.mem_cons.mp hc with rfl | hc
      · exact List.mem_cons_self
      · exact List.mem_cons_of_mem _ (ih List.mem_cons_self hc)
    · exact List.mem_cons_of_mem _ (ih (List.mem_cons_of_mem _ hl) hc)

theorem Closest.closest?_mem {name guess : String} {candidates : List String}
    (h : closest? name candidates = some guess) : guess ∈ candidates := by
  unfold closest? at h
  dsimp only at h
  obtain ⟨⟨similar, c⟩, hbest, rfl⟩ := Option.map_eq_some_iff.mp h
  generalize hscored : List.filterMap _ candidates = scored at hbest
  have hmem : (similar, c) ∈ scored := by
    revert hbest
    refine List.foldlRecOn (motive := fun best => best = some (similar, c) → (similar, c) ∈ scored)
      scored _ nofun fun best ih x hx => ?_
    cases best with
    | none =>
      intro heq
      exact Option.some.inj heq ▸ hx
    | some known =>
      dsimp only
      split
      · intro heq
        exact Option.some.inj heq ▸ hx
      · split
        · intro heq
          exact Option.some.inj heq ▸ hx
        · exact ih
  rw [← hscored] at hmem
  obtain ⟨c', hc', hsome⟩ := List.mem_filterMap.mp hmem
  split at hsome
  · cases hsome
    exact hc'
  · cases hsome

end Text

namespace Terminal

theorem isPlain_int (n : Int) : IsPlain (toString n) := by
  have hnat (k : Nat) : IsPlain k.repr := by
    intro hmem
    rw [Nat.repr_eq_ofList_toDigits, String.toList_ofList] at hmem
    exact absurd (Nat.isDigit_of_mem_toDigits (by decide) (by decide) hmem) (by decide)
  cases n with
  | ofNat k => exact hnat k
  | negSucc k => exact IsPlain.append (s := "-") (by decide) (hnat _)

theorem isPlain_spaces (n : Nat) : IsPlain (String.ofList (List.replicate n ' ')) := by
  intro hmem
  rw [String.toList_ofList] at hmem
  exact absurd (List.eq_of_mem_replicate hmem) (by decide)

theorem isPlain_joined {sep : String} (hsep : IsPlain sep) {ls : List String}
    (hls : ∀ l ∈ ls, IsPlain l) : IsPlain (sep.intercalate ls) := by
  induction ls with
  | nil => simp [IsPlain]
  | cons l ls ih =>
    obtain ⟨hl, hls⟩ := List.forall_mem_cons.mp hls
    cases ls with
    | nil => simpa using hl
    | cons l' ls =>
      rw [String.intercalate_cons_cons]
      exact (hl.append hsep).append (ih hls)

theorem isPlain_padLeft {s : String} (width : Nat) (hs : IsPlain s) : IsPlain (padLeft width s) :=
  (isPlain_spaces _).append hs

theorem isPlain_lines {source : String} (hs : IsPlain source) :
    ∀ l ∈ source.textLines, IsPlain l := by
  intro l hl hmem
  obtain ⟨line, hline, rfl⟩ := List.mem_map.mp hl
  rw [String.toList_ofList] at hmem
  exact hs (Text.mem_of_mem_lines hline hmem)

theorem errorCode_decorated {s : String} (hs : IsPlain s) :
    Decorated (errorCode true s) (errorCode false s) := .colorize hs

theorem location_decorated {s : String} (hs : IsPlain s) :
    Decorated (location true s) (location false s) := .colorize hs

theorem dim_decorated {s : String} (hs : IsPlain s) : Decorated (dim true s) (dim false s) :=
  .colorize hs

theorem errorHeader_decorated (c : ErrorCode) {message message' : String}
    (h : Decorated message message') :
    Decorated (errorHeader true (some c.text) message)
      (errorHeader false (some c.text) message') := by
  have hcode : IsPlain c.text := by cases c <;> decide
  unfold errorHeader
  dsimp only
  split
  · exact h
  · exact .between (errorCode_decorated hcode) ⟨by decide, by decide, by decide⟩ h

theorem sourceLine_decorated {content : String} (hs : IsPlain content) (number : Int)
    (atFault : Bool) : Decorated (sourceLine true number content atFault)
      (sourceLine false number content atFault) := by
  have hrow {marker body body' : String} (hmarker : IsPlain marker) (hbody : Decorated body body') :
      Decorated (colorize true [.yellow] (marker ++ padLeft 3 (toString number)) ++ " | " ++ body)
        (colorize false [.yellow] (marker ++ padLeft 3 (toString number)) ++ " | " ++ body') :=
    .between (.colorize (hmarker.append (isPlain_padLeft 3 (isPlain_int number))))
      ⟨by decide, by decide, by decide⟩ hbody
  cases atFault with
  | false => exact hrow (by decide) (dim_decorated hs)
  | true => exact hrow (by decide) (Decorated.styled [.brightRed] hs)

end Terminal

namespace Snippet

def IsOf (P : String → Prop) (s : Snippet) : Prop := ∀ l ∈ s.lines, P l.2

theorem build?_isOf {source : String} (hs : IsPlain source) {line context : Int}
    {column : Option Int} {s : Snippet} (h : build? source line context column = some s) :
    s.IsOf IsPlain := by
  unfold build? at h
  dsimp only at h
  split at h
  · cases h
    intro l hl
    obtain ⟨⟨text, i⟩, hi, rfl⟩ := List.mem_map.mp hl
    have hmem := List.fst_mem_of_mem_zipIdx hi
    exact Terminal.isPlain_lines hs _ (List.mem_of_mem_drop (List.mem_of_mem_take hmem))
  · cases h

theorem caretLine_decorated (column : Int) :
    Decorated (caretLine true column) (caretLine false column) :=
  .between (.colorize (by decide)) ⟨by decide, by decide, by decide⟩
    (.colorize ((Terminal.isPlain_spaces _).append (by decide)))

theorem bodyLines_decorated {s : Snippet} (hs : s.IsOf IsPlain) :
    List.Forall₂ Decorated (s.bodyLines true) (s.bodyLines false) := by
  obtain ⟨lines, errorLine, column⟩ := s
  unfold bodyLines
  dsimp only
  induction lines with
  | nil => exact .nil
  | cons l lines ih =>
    obtain ⟨hl, hlines⟩ := List.forall_mem_cons.mp hs
    refine List.rel_append ?_ (ih hlines)
    have hrow := Terminal.sourceLine_decorated hl l.1 (l.1 = errorLine)
    cases column with
    | none => exact .cons hrow .nil
    | some column =>
      dsimp only
      split
      · exact .cons hrow (.cons (caretLine_decorated column) .nil)
      · exact .cons hrow .nil

theorem text_decorated {s : Snippet} (hs : s.IsOf IsPlain) :
    Decorated (s.text true) (s.text false) := by
  have hbar : Decorated (Terminal.dim true "   |") (Terminal.dim false "   |") :=
    Terminal.dim_decorated (by decide)
  refine .joined ⟨by decide, by decide, by decide⟩ (.cons hbar ?_)
  exact List.rel_append (bodyLines_decorated hs) (.cons hbar .nil)

end Snippet

theorem templateStack_decorated {stack : List CallSite} (hs : ∀ s ∈ stack, IsPlain s.template) :
    Decorated (templateStack true stack) (templateStack false stack) := by
  unfold templateStack
  split
  · exact .plain (by decide)
  · refine .joined ⟨by decide, by decide, by decide⟩
      (.cons (Terminal.dim_decorated (by decide)) ?_)
    refine List.forall₂_map_left_iff.mpr (List.forall₂_map_right_iff.mpr ?_)
    refine List.forall₂_same.mpr fun s hmem => ?_
    have hplace : IsPlain (s.template ++ ":" ++ toString s.line) :=
      ((hs s hmem).append (by decide)).append (Terminal.isPlain_int _)
    exact .behind ⟨by decide, by decide, by decide⟩ (Terminal.location_decorated hplace)

structure SyntaxError.IsOf (P : String → Prop) (e : SyntaxError) : Prop where
  message : P e.message
  name : ∀ t ∈ e.name, P t
  filename : ∀ t ∈ e.filename, P t
  source : ∀ t ∈ e.source, P t

/-- All texts that tell where a render stopped have a property. -/
structure RenderFailure.IsOf (P : String → Prop) (f : RenderFailure) : Prop where
  template : ∀ t ∈ f.template, P t
  snippet : ∀ s ∈ f.snippet, s.IsOf P
  stack : ∀ s ∈ f.stack, P s.template

/-- The errors that can be made from texts with a property. An undefined name is told with the
names there are, of which one may be offered. -/
inductive TemplateError.MadeOf (P : String → Prop) : TemplateError → Prop
  | plain {message : String} (hmessage : P message) : MadeOf P (.plain message)
  | notFound {message : String} {name : Option String} (hmessage : P message)
      (hname : ∀ t ∈ name, P t) : MadeOf P (.notFound message name)
  | malformed {e : SyntaxError} (he : e.IsOf P) : MadeOf P (.malformed e)
  | cycle {chain : List String} (hchain : ∀ t ∈ chain, P t) : MadeOf P (.cycle chain)
  | tooDeep {name : String} {limit : Int} {stack : List CallSite} (hname : P name)
      (hstack : ∀ s ∈ stack, P s.template) : MadeOf P (.tooDeep name limit stack)
  | failed {message : String} {suggestion : Option String} {f : RenderFailure}
      (hmessage : P message) (hsuggestion : ∀ t ∈ suggestion, P t) (hf : f.IsOf P) :
      MadeOf P (.failed message suggestion f)
  | undefined {name : String} {template : Option String} {available : List String}
      {line : Option Int} {snippet : Option Snippet} {stack : List CallSite} (hname : P name)
      (havailable : ∀ t ∈ available, P t)
      (hf : RenderFailure.IsOf P ⟨template, line, none, snippet, stack⟩) :
      MadeOf P (undefinedName name template available line snippet stack)

theorem mem_of_nonEmpty {s : Option String} {t : String} (h : nonEmpty s = some t) : t ∈ s := by
  unfold nonEmpty at h
  split at h
  · split at h
    · cases h
    · exact h
  · cases h

namespace SyntaxError

variable {e : SyntaxError} (he : e.IsOf IsPlain)

include he

theorem location_plain : IsPlain e.location := by
  have hplace : IsPlain
      (((nonEmpty e.filename).orElse fun _ => nonEmpty e.name).getD "<template>") := by
    cases hfile : nonEmpty e.filename with
    | some t => exact he.filename t (mem_of_nonEmpty hfile)
    | none =>
      cases hname : nonEmpty e.name with
      | some t => exact he.name t (mem_of_nonEmpty hname)
      | none => decide
  unfold location
  dsimp only
  split
  · exact hplace
  · refine ((hplace.append (by decide)).append (Terminal.isPlain_int _)).append ?_
    split
    · decide
    · exact IsPlain.append (by decide) (Terminal.isPlain_int _)

theorem excerpt_decorated {a a' : String} (ha : Decorated a a') (context : Int) :
    Decorated (a ++ e.excerpt true context) (a' ++ e.excerpt false context) := by
  unfold excerpt
  cases hs : e.snippet? context with
  | none => simpa using ha
  | some s =>
    have hof : s.IsOf IsPlain := by
      unfold snippet? at hs
      split at hs
      · rename_i source line hsource hline
        exact Snippet.build?_isOf (he.source source (mem_of_nonEmpty hsource)) hs
      · cases hs
    dsimp only
    rw [← String.append_assoc, ← String.append_assoc]
    exact .between ha ⟨by decide, by decide, by decide⟩ (Snippet.text_decorated hof)

theorem text_decorated : Decorated (e.text true) (e.text false) :=
  excerpt_decorated he (.plain (((IsPlain.append (by decide) he.message).append (by decide)).append
    (location_plain he))) 0

theorem compact_decorated : Decorated (e.compact true) (e.compact false) :=
  excerpt_decorated he (.between (Terminal.errorHeader_decorated _ (.plain he.message))
    ⟨by decide, by decide, by decide⟩ (Terminal.location_decorated (location_plain he))) 2

end SyntaxError

namespace RenderFailure

variable {f : RenderFailure} (hf : f.IsOf IsPlain)

include hf

theorem location_plain : IsPlain f.location := by
  have htemplate : IsPlain ((nonEmpty f.template).getD "<template>") := by
    cases ht : nonEmpty f.template with
    | none => decide
    | some t => exact hf.template t (mem_of_nonEmpty ht)
  unfold location
  refine htemplate.append ?_
  split
  · decide
  · exact IsPlain.append (by decide) (Terminal.isPlain_int _)

theorem text_decorated {headline headline' : String} (hheadline : Decorated headline headline')
    {suggestion suggestion' : Option String}
    (hsuggestion : Option.Rel Decorated (nonEmpty suggestion) (nonEmpty suggestion')) :
    Decorated (f.text true headline suggestion) (f.text false headline' suggestion') := by
  have hlocation := Terminal.location_decorated (location_plain hf)
  unfold text
  refine .joined ⟨by decide, by decide, by decide⟩ ?_
  refine List.rel_append (List.rel_append (List.rel_append ?_ ?_) ?_) ?_
  · exact .cons hheadline (.cons (.behind ⟨by decide, by decide, by decide⟩ hlocation) .nil)
  · cases hs : f.snippet with
    | none => exact .nil
    | some s => exact .cons (Snippet.text_decorated (hf.snippet s hs)) .nil
  · split
    · exact .nil
    · exact .cons (.plain (by decide)) (.cons (templateStack_decorated hf.stack) .nil)
  · generalize nonEmpty suggestion = s, nonEmpty suggestion' = s' at hsuggestion
    have hapart : IsApart "  " := ⟨by decide, by decide, by decide⟩
    cases hsuggestion with
    | none => exact .nil
    | some hs =>
      exact .cons (.between (.behind hapart (.colorize (by decide)))
        ⟨by decide, by decide, by decide⟩ hs) .nil

end RenderFailure

namespace TemplateError

theorem followed_decorated {head : String} (hhead : IsPlain head) {stack : List CallSite}
    (hstack : ∀ s ∈ stack, IsPlain s.template) :
    Decorated (head ++ if stack.isEmpty then "" else "\n\n" ++ templateStack true stack)
      (head ++ if stack.isEmpty then "" else "\n\n" ++ templateStack false stack) := by
  split
  · simpa using Decorated.plain hhead
  · rw [← String.append_assoc, ← String.append_assoc]
    exact .between (.plain hhead) ⟨by decide, by decide, by decide⟩
      (templateStack_decorated hstack)

theorem suggestion_decorated {guess : String} (hguess : IsPlain guess) :
    Decorated ("Did you mean '" ++ Terminal.suggestion true guess ++ "'?")
      ("Did you mean '" ++ Terminal.suggestion false guess ++ "'?") := by
  have hquoted : Decorated ("Did you mean" ++ " '" ++ Terminal.suggestion true guess)
      ("Did you mean" ++ " '" ++ Terminal.suggestion false guess) :=
    .between (.plain (by decide)) ⟨by decide, by decide, by decide⟩ (.colorize hguess)
  exact hquoted.before ⟨by decide, by decide, by decide⟩

theorem message_decorated {e : TemplateError} (h : e.MadeOf IsPlain) :
    Decorated (e.message true) (e.message false) := by
  cases h with
  | plain hmessage => exact .plain hmessage
  | notFound hmessage hname => exact .plain hmessage
  | malformed he => exact SyntaxError.text_decorated he
  | cycle hchain =>
    exact .plain (IsPlain.append (by decide) (Terminal.isPlain_joined (by decide) hchain))
  | @tooDeep name limit stack hname hstack =>
    have hhead : IsPlain ("Maximum template nesting depth (" ++ toString limit ++
        ") exceeded while loading '" ++ name ++ "'") :=
      (((IsPlain.append (by decide) (Terminal.isPlain_int limit)).append (by decide)).append
        hname).append (by decide)
    exact followed_decorated hhead hstack
  | @failed message suggestion f hmessage hsuggestion hf =>
    refine RenderFailure.text_decorated hf (.plain (IsPlain.append (by decide) hmessage)) ?_
    cases hs : nonEmpty suggestion with
    | none => exact .none
    | some s => exact .some (.plain (hsuggestion s (mem_of_nonEmpty hs)))
  | @undefined name template available line snippet stack hname havailable hf =>
    have hplace : RenderFailure.IsOf IsPlain
        ⟨some ((nonEmpty template).getD "<template>"), line, none, snippet, stack⟩ := by
      refine ⟨?_, hf.snippet, hf.stack⟩
      rintro t ⟨⟩
      cases ht : nonEmpty template with
      | none => decide
      | some t => exact hf.template t (mem_of_nonEmpty ht)
    refine RenderFailure.text_decorated hplace (.between (.plain ?_) ?_ ?_) ?_
    · exact IsPlain.append (by decide) hname
    · exact ⟨by decide, by decide, by decide⟩
    · exact Terminal.location_decorated (RenderFailure.location_plain hplace)
    · cases hguess : Text.Closest.closest? name available with
      | none => exact .none
      | some guess =>
        have hsome (colors : Bool) : nonEmpty (some ("Did you mean '" ++
            Terminal.suggestion colors guess ++ "'?")) =
              some ("Did you mean '" ++ Terminal.suggestion colors guess ++ "'?") := by
          simp [nonEmpty]
        change Option.Rel Decorated (nonEmpty (some _)) (nonEmpty (some _))
        rw [hsome, hsome]
        exact .some (suggestion_decorated (havailable guess (Text.Closest.closest?_mem hguess)))

theorem compact_decorated {e : TemplateError} (h : e.MadeOf IsPlain) :
    Decorated (e.compact true) (e.compact false) := by
  have hmessage := message_decorated h
  have hbehind (c : ErrorCode) :
      Decorated
        (if (e.message true).hasPart c.text then e.message true
          else Terminal.errorHeader true (some c.text) (e.message true))
        (if (e.message false).hasPart c.text then e.message false
          else Terminal.errorHeader false (some c.text) (e.message false)) := by
    have hpart : (e.message true).hasPart c.text = (e.message false).hasPart c.text := by
      unfold String.hasPart
      rw [Bool.eq_iff_iff, Text.occursIn_iff, Text.occursIn_iff,
        Decorated.infix_iff (Decorated.isCode_text c) hmessage]
    rw [hpart]
    split
    · exact hmessage
    · exact Terminal.errorHeader_decorated c hmessage
  cases h with
  | plain _ => exact hmessage
  | notFound _ _ => exact hbehind .templateNotFound
  | malformed he => exact SyntaxError.compact_decorated he
  | cycle _ => exact hbehind .extendsCycle
  | tooDeep _ _ => exact hbehind .tooDeep
  | failed _ _ _ => exact hbehind .renderError
  | undefined _ _ _ => exact hbehind .undefinedVariable

/-- From texts without escape characters, every error tells the same with and without colors: the
message in colors and the message behind its code in colors are, stripped, those without. -/
theorem colors_only_decorate {e : TemplateError} (h : e.MadeOf IsPlain) :
    Terminal.strip (e.message true) = e.message false ∧
      Terminal.strip (e.compact true) = e.compact false :=
  ⟨(message_decorated h).strip_eq, (compact_decorated h).strip_eq⟩

/-- A name that is almost there, in the first line of a partial. -/
def misspelledTitle : TemplateError :=
  undefinedName "titl" (some "nav") ["title", "user"] (some 1)
    (some ⟨[(1, "<h1>{{ titl }}</h1>"), (2, "")], 1, some 4⟩) [⟨"layouts.app", 12⟩, ⟨"nav", 1⟩]

theorem misspelledTitle_colors_only_decorate : misspelledTitle.MadeOf IsPlain ∧
    Terminal.strip (misspelledTitle.message true) = misspelledTitle.message false ∧
      Terminal.strip (misspelledTitle.compact true) = misspelledTitle.compact false := by
  have hmade : misspelledTitle.MadeOf IsPlain := by
    refine .undefined (by decide) (by decide) ⟨?_, ?_, by decide⟩
    · rintro t ⟨⟩
      decide
    · rintro s ⟨⟩
      unfold Snippet.IsOf
      decide
  exact ⟨hmade, colors_only_decorate hmade⟩

end TemplateError

end Stencil
