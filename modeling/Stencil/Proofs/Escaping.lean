import Stencil.Proofs.Emission
import Stencil.Proofs.Markers

/-!
# Escaping

What a render emits is literal text of the templates, fallbacks of places, and escaped text of
values. No delimiter of markup survives the escape, so each one in the output was written in
a template.
-/

namespace Stencil

namespace Text

/-- The characters that delimit tags and attribute values. -/
def isDelimiter (c : Char) : Bool := c = '<' || c = '>' || c = '"' || c = '\''

theorem escapeChar_clean (c : Char) : (escapeChar c).all (!isDelimiter ·) := by
  unfold escapeChar
  split
  · rfl
  · rfl
  · rfl
  · rfl
  · rfl
  · simp_all [isDelimiter]

theorem escape_clean (s : String) {d : Char} (hd : d ∈ (escape s).toList) :
    isDelimiter d = false := by
  unfold escape at hd
  split at hd
  · rw [String.toList_ofList] at hd
    obtain ⟨c, _, hc⟩ := List.mem_flatMap.mp hd
    simpa using List.all_eq_true.mp (escapeChar_clean c) d hc
  · rename_i hany
    simp only [List.any_eq_true, not_exists, not_and, Bool.not_eq_true] at hany
    have hneeds := hany d hd
    simp only [needsEscape, Bool.or_eq_false_iff] at hneeds
    simp [isDelimiter, hneeds]

end Text

/-- A template and whatever its environment may load when it is rendered. -/
def Environment.Known (env : Environment) (t u : Template) : Prop :=
  u = t ∨ ∃ calls name w w₁, (env.loadUnder calls name).run w = .ok u w₁

namespace Piece

/-- The piece stands as it is in the source of a template of `K`. -/
inductive Authored (K : Template → Prop) : Piece → Prop
  | literal {u : Template} {tokens : List Token} {tok : Token} {s : String} (hu : K u)
      (htokens : u.source.tokens = .ok tokens) (htok : tok ∈ tokens) (h : tok.kind = .data s) :
      Authored K (.literal s)
  | fallback {u : Template} {tokens : List Token} {tok : Token} {s : String} (hu : K u)
      (htokens : u.source.tokens = .ok tokens) (htok : tok ∈ tokens) (h : tok.HasDefault s) :
      Authored K (.fallback s)

/-- The piece is authored, or the escaped text of a value that an expression in a template of
`K` has. -/
inductive Sound (ev : Evaluator) (K : Template → Prop) : Piece → Prop
  | authored {p : Piece} (h : p.Authored K) : Sound ev K p
  | escaped {u : Template} {body : List Node} {position : Text.Position} {code : Code}
      {s : String} (hu : K u) (hbody : body ∈ u.tree.bodies)
      (hleaf : .output position code true ∈ Node.leavesOf body) (h : code.Shows ev s) :
      Sound ev K (.escaped s)

theorem Sound.authored_of_delimiter {ev : Evaluator} {K : Template → Prop} {p : Piece}
    (hp : p.Sound ev K) {c : Char} (hc : c ∈ p.text.toList) (hd : Text.isDelimiter c) :
    p.Authored K := by
  cases hp with
  | authored h => exact h
  | @escaped _ _ _ _ s =>
    rw [Text.escape_clean s hc] at hd
    cases hd

end Piece

/-- Leaves of sources without markers permit only sound pieces. -/
theorem Template.IsRead.permits {t : Template} (hread : t.IsRead)
    (hfree : t.source.isMarkerFree) (ev : Evaluator) {K : Template → Prop} (ht : K t)
    {body : List Node} (hbody : body ∈ t.tree.bodies) {l : Node} (hl : l ∈ Node.leavesOf body) :
    l.Permits ev (Piece.Sound ev K) := by
  obtain ⟨tokens, htokens, tok, htok, hmakes⟩ := hread.leaf_made hbody hl
  cases l with
  | data p s => exact .authored (.literal ht htokens htok hmakes)
  | yielding p name default => exact .authored (.fallback ht htokens htok hmakes)
  | output p code escaped =>
    intro s hs
    cases escaped with
    | true => exact .escaped ht hbody hl hs
    | false =>
      obtain ⟨text, hkind⟩ := hmakes rfl
      have hraw := Source.not_isRaw hfree htokens htok
      simp only [Token.isRaw, hkind] at hraw
      cases hraw
  | including p name data => trivial
  | conditional p test body others otherwise => trivial
  | loop p keyword target source body => trivial
  | whileLoop p test body => trivial

namespace Output

/-- The characters of an output, each with the piece it belongs to. -/
def marks (out : Output) : List (Char × Piece) :=
  out.toList.flatMap fun p => p.text.toList.map (·, p)

theorem marks_fst (out : Output) : out.marks.map Prod.fst = out.text.toList := by
  unfold marks text
  rw [String.toList_join, List.map_flatMap, List.flatMap_map]
  simp [Function.comp_def]

theorem mem_marks {out : Output} {c : Char} {p : Piece} :
    (c, p) ∈ out.marks ↔ p ∈ out ∧ c ∈ p.text.toList := by
  unfold marks
  simp only [List.mem_flatMap, Array.mem_toList_iff, List.mem_map, Prod.mk.injEq]
  constructor
  · rintro ⟨p', hp, c', hc, rfl, rfl⟩
    exact ⟨hp, hc⟩
  · rintro ⟨hp, hc⟩
    exact ⟨p, hp, c, hc, rfl, rfl⟩

end Output

/-- Without raw interpolations, a render emits nothing but literal text, defaults of places and
escaped texts of values; so each delimiter of markup in its output is authored. -/
theorem output_escaped (env : Environment) (ev : Evaluator) {t : Template} (hread : t.IsRead)
    (hfree : ∀ u, env.Known t u → u.source.isMarkerFree) {data : Value} {more : Bindings}
    {w w₁ : World} {out : Output} (hrun : (t.renderBy ev env data more).run w = .ok out w₁) :
    out.All (Piece.Sound ev (env.Known t)) ∧
      out.marks.map Prod.fst = out.text.toList ∧
      ∀ c p, (c, p) ∈ out.marks → Text.isDelimiter c → p ∈ out ∧ p.Authored (env.Known t) := by
  have hconfined : Confined env ev (env.Known t) (Piece.Sound ev (env.Known t)) := by
    refine ⟨fun calls name u w w₁ hload => .inr ⟨calls, name, w, w₁, hload⟩, ?_⟩
    intro u hu body hbody l hl
    have hreadU : u.IsRead := by
      rcases hu with rfl | ⟨calls, name, w, w₁, hload⟩
      · exact hread
      · exact (Environment.loadUnder_ok hload).2
    exact hreadU.permits (hfree u hu) ev hu hbody hl
  have hsound : out.All (Piece.Sound ev (env.Known t)) := by
    refine (Action.Ensures.seq fun d => .seq fun r => ?_) w out w₁ hrun
    exact ((Render.part_emits hconfined _).2 t r [] (.inl rfl) Sections.from_nil).within _
  refine ⟨hsound, out.marks_fst, fun c p hmark hd => ?_⟩
  obtain ⟨hp, hc⟩ := Output.mem_marks.mp hmark
  exact ⟨hp, (hsound p hp).authored_of_delimiter hc hd⟩

theorem Environment.loadUnder_ofTable {templates : List (String × String)} {calls : Nat}
    {name : String} {u : Template} {w w₁ : World}
    (h : ((ofTable templates).loadUnder calls name).run w = .ok u w₁) :
    (name, u.source.text) ∈ templates := by
  obtain ⟨found, w', hfind, hcompile⟩ := Action.bind_ok h
  obtain ⟨filename, hsource⟩ := compileLoaded_ok hcompile
  rw [(Template.ofSource_ok hsource).1]
  unfold Loader.find at hfind
  cases hlookup : templates.lookup name with
  | none =>
    rw [hlookup] at hfind
    cases hfind
  | some text =>
    rw [hlookup] at hfind
    cases hfind
    obtain ⟨before, after, htemplates, _⟩ := List.lookup_eq_some_iff.mp hlookup
    simp [htemplates]

def quoteTemplates : List (String × String) :=
  [("a", "@extends('b')@section('s')\x7b\x7b x \x7d\x7d@include('p')@endsection"),
    ("b", "<b id=\"@yield('s')\">@yield('u', '<')"),
    ("p", "@if(1)'\x7b\x7b '>' \x7d\x7d'@endif")]

def quotes : Environment := .ofTable quoteTemplates

def quotePage : Template :=
  ((quotes.load "a").value? World.fresh).get (by decide +kernel)

def quoteOutput : Output :=
  #[.literal "<b id=\"", .escaped "\"&", .literal "'", .escaped ">", .literal "'",
    .literal "\">", .fallback "<"]

/-- The delimiters around the values stand, those in them do not. -/
theorem quote_page_escaped :
    quotePage.IsRead ∧ (∀ u, quotes.Known quotePage u → u.source.isMarkerFree) ∧
      (∃ w₁, (quotePage.renderBy Evaluator.standard quotes .none [("x", .str "\"&")]).run
        World.fresh = .ok quoteOutput w₁) ∧
      quoteOutput.text = "<b id=\"&quot;&amp;'&gt;'\"><" ∧
      quoteOutput.All (Piece.Sound Evaluator.standard (quotes.Known quotePage)) ∧
      quoteOutput.marks.map Prod.fst = quoteOutput.text.toList ∧
      ∀ c p, (c, p) ∈ quoteOutput.marks → Text.isDelimiter c →
        p ∈ quoteOutput ∧ p.Authored (quotes.Known quotePage) := by
  have hpage : (quotes.load "a").value? World.fresh = some quotePage := (Option.some_get _).symm
  obtain ⟨w, hload⟩ := Action.run_of_value? hpage
  have hread : quotePage.IsRead := (Environment.loadUnder_ok hload).2
  have hfree : ∀ u, quotes.Known quotePage u → u.source.isMarkerFree := by
    have htable : ∀ x ∈ quoteTemplates,
        Text.occursIn Delimiter.rawOpening x.2.toList = false := by decide +kernel
    intro u hu
    have hmem : ∃ name, (name, u.source.text) ∈ quoteTemplates := by
      rcases hu with rfl | ⟨calls, name, w, w₁, hload⟩
      · exact ⟨_, Environment.loadUnder_ofTable hload⟩
      · exact ⟨_, Environment.loadUnder_ofTable hload⟩
    obtain ⟨name, hname⟩ := hmem
    exact Source.isMarkerFree_of_text (htable _ hname)
  have hout : (quotePage.renderBy Evaluator.standard quotes .none
      [("x", .str "\"&")]).value? World.fresh = some quoteOutput := by decide +kernel
  have htext : quoteOutput.text = "<b id=\"&quot;&amp;'&gt;'\"><" := by decide +kernel
  obtain ⟨w₁, hrun⟩ := Action.run_of_value? hout
  exact ⟨hread, hfree, ⟨w₁, hrun⟩, htext, output_escaped quotes Evaluator.standard hread hfree hrun⟩

end Stencil
