import Stencil.Token.List

/-!
# Markers of raw interpolations

A token that is not escaped is read only where its marker stands in the text. So a source whose
text has no such marker has no such token, whatever else is written in it.
-/

namespace Stencil

namespace Text

theorem occursIn_cons {needle s : List Char} (c : Char) (h : occursIn needle s) :
    occursIn needle (c :: s) := by
  unfold occursIn at h ⊢
  unfold indexOf?
  split
  · rfl
  · simpa using h

theorem occursIn_drop {needle s : List Char} (k : Nat) (h : occursIn needle (s.drop k)) :
    occursIn needle s := by
  induction s generalizing k with
  | nil => simpa using h
  | cons c s ih =>
    cases k with
    | zero => exact h
    | succ k => exact occursIn_cons c (ih k h)

end Text

namespace Segment

theorem directive_isDirective {word rest : List Char} {k : Keyword} {s : Segment}
    (h : directive word k rest = .ok s) : s.isDirective := by
  unfold directive at h
  split at h
  · simp only at h
    split at h
    · split at h
      · cases h
        rfl
      · cases h
    · cases h
  · cases h
    rfl

theorem first_raw {previous : Option Char} {adjacent : Bool} {c : Char} {cs body : List Char}
    (h : first previous adjacent c cs = .ok (.rawOutput body)) :
    Text.occursIn Delimiter.rawOpening (c :: cs) := by
  unfold first at h
  split at h
  · split at h
    · cases h
    · cases h
  · split at h
    · rename_i hraw
      simp [Text.occursIn, Text.indexOf?, hraw]
    · split at h
      · split at h
        · cases h
        · cases h
      · split at h
        · simp only at h
          split at h
          · split at h
            · cases directive_isDirective h
            · cases h
          · cases h
        · cases h

/-- A raw interpolation is read only where its marker stands. -/
theorem scan_raw {previous : Option Char} {adjacent : Bool} {p : Text.Position} {s : List Char}
    {segments : List (Text.Position × Segment)} (h : scan previous adjacent p s = .ok segments)
    {q : Text.Position} {body : List Char} (hraw : (q, .rawOutput body) ∈ segments) :
    Text.occursIn Delimiter.rawOpening s := by
  fun_induction scan previous adjacent p s generalizing segments with
  | case1 =>
    cases h
    cases hraw
  | case2 previous adjacent p c cs f hf => cases h
  | case3 previous adjacent p c cs found hfound _ rest =>
    rename_i ih
    cases hrest : rest with
    | error e =>
      rw [hrest] at h
      cases h
    | ok more =>
      rw [hrest] at h
      cases h
      rcases List.mem_cons.mp hraw with heq | hmem
      · cases heq
        exact first_raw hfound
      · exact Text.occursIn_cons c (Text.occursIn_drop _ (ih hrest hmem))

end Segment

namespace Token

def isRaw (t : Token) : Bool :=
  match t.kind with
  | .rawOutput _ => true
  | _ => false

end Token

namespace Segment

theorem mem_of_mem_flush {pending : Pending} {tokens : List Token} {tok : Token}
    (h : tok ∈ flush pending tokens) (hraw : tok.isRaw) : tok ∈ tokens := by
  unfold flush at h
  split at h
  · exact h
  · refine (List.mem_cons.mp h).resolve_left fun heq => ?_
    rw [heq] at hraw
    cases hraw

theorem tokensAfter_raw {stop : Text.Position} {pending : Pending}
    {segments : List (Text.Position × Segment)} {tok : Token}
    (h : tok ∈ tokensAfter stop pending segments) (hraw : tok.isRaw) :
    ∃ q body, (q, .rawOutput body) ∈ segments := by
  induction segments generalizing pending with
  | nil =>
    have hfinish := mem_of_mem_flush h hraw
    rw [List.mem_singleton.mp hfinish] at hraw
    cases hraw
  | cons x segments ih =>
    obtain ⟨p, s⟩ := x
    have hlater {pending : Pending} (h : tok ∈ tokensAfter stop pending segments) :
        ∃ q body, (q, .rawOutput body) ∈ (p, s) :: segments := by
      obtain ⟨q, body, hmem⟩ := ih h
      exact ⟨q, body, List.mem_cons_of_mem _ hmem⟩
    have hother {kind : TokenKind} (hkind : (Token.mk kind p).isRaw = false)
        (h : tok ∈ flush pending (⟨kind, p⟩ :: tokensAfter stop none segments)) :
        ∃ q body, (q, .rawOutput body) ∈ (p, s) :: segments := by
      rcases List.mem_cons.mp (mem_of_mem_flush h hraw) with heq | h
      · rw [heq, hkind] at hraw
        cases hraw
      · exact hlater h
    unfold tokensAfter at h
    cases s with
    | literal c =>
      simp only at h
      split at h
      · exact hlater h
      · exact hlater h
    | comment body => exact hlater h
    | rawOutput body => exact ⟨p, body, List.mem_cons_self⟩
    | output body => exact hother rfl h
    | bare word k => exact hother rfl h
    | withArguments word k gap body => exact hother rfl h

end Segment

namespace Source

/-- No interpolation of the source is raw. -/
def isMarkerFree (s : Source) : Bool :=
  match s.tokens with
  | .ok tokens => tokens.all fun tok => !tok.isRaw
  | .error _ => true

/-- A source in whose text no marker opens is free of them. -/
theorem isMarkerFree_of_text {s : Source}
    (h : Text.occursIn Delimiter.rawOpening s.text.toList = false) : s.isMarkerFree := by
  unfold isMarkerFree
  split
  · rename_i tokens htokens
    rw [List.all_eq_true]
    intro tok htok
    rw [Bool.not_eq_true', Bool.eq_false_iff]
    intro hraw
    unfold Source.tokens at htokens
    cases hsegments : s.segments with
    | error e =>
      rw [hsegments] at htokens
      cases htokens
    | ok segments =>
      rw [hsegments] at htokens
      cases htokens
      obtain ⟨q, body, hmem⟩ := Segment.tokensAfter_raw htok hraw
      rw [Segment.scan_raw hsegments hmem] at h
      cases h
  · rfl

theorem not_isRaw {s : Source} (h : s.isMarkerFree) {tokens : List Token}
    (htokens : s.tokens = .ok tokens) {tok : Token} (htok : tok ∈ tokens) : tok.isRaw = false := by
  unfold isMarkerFree at h
  rw [htokens] at h
  simpa using List.all_eq_true.mp h tok htok

end Source

end Stencil
