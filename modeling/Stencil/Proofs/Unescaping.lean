import Stencil.Proofs.Escaping
import Stencil.Text.Search

/-!
# Reading escaped text back

The escape of a text is made of the escapes of its characters, one after the other: an entity, or a
character that is no `&`. An entity has no other `&` than its first character, so every `&` begins
an entity, and one pass from left to right finds exactly the entities that the escape wrote,
whatever the text itself looks like.
-/

namespace Stencil

namespace Text

/-- The entities with the characters they stand for. -/
def entities : List (List Char × Char) :=
  [("&amp;".toList, '&'), ("&lt;".toList, '<'), ("&gt;".toList, '>'), ("&quot;".toList, '"'),
    ("&#39;".toList, '\'')]

/-- The entity that a text begins with: the character it stands for, and the text behind it. -/
def entityAt? (s : List Char) : Option (Char × List Char) :=
  entities.findSome? fun e => (dropBeginning? e.1 s).map (e.2, ·)

theorem dropBeginning?_length {p s rest : List Char} (h : dropBeginning? p s = some rest) :
    s.length = p.length + rest.length := by
  induction p generalizing s with
  | nil =>
    cases h
    simp
  | cons c p ih =>
    cases s with
    | nil => cases h
    | cons d s =>
      unfold dropBeginning? at h
      split at h
      · have := ih h
        simp only [List.length_cons]
        omega
      · cases h

theorem entityAt?_length {s rest : List Char} {c : Char} (h : entityAt? s = some (c, rest)) :
    rest.length < s.length := by
  obtain ⟨e, he, hdrop⟩ := List.exists_of_findSome?_eq_some h
  obtain ⟨rest', hrest, heq⟩ := Option.map_eq_some_iff.mp hdrop
  cases heq
  have hlength := dropBeginning?_length hrest
  have hlong : ∀ e ∈ entities, 0 < e.1.length := by decide
  have := hlong e he
  omega

/-- One pass from left to right in which each entity becomes its character. -/
def unescapeChars (s : List Char) : List Char :=
  match s with
  | [] => []
  | c :: s =>
    match _ : entityAt? (c :: s) with
    | some (d, rest) => d :: unescapeChars rest
    | none => c :: unescapeChars s
termination_by s.length
decreasing_by
  · exact entityAt?_length ‹_›
  · exact Nat.lt_succ_self _

def unescape (s : String) : String := String.ofList (unescapeChars s.toList)

theorem dropBeginning?_append (p s : List Char) : dropBeginning? p (p ++ s) = some s := by
  induction p with
  | nil => rfl
  | cons c p ih => simpa [dropBeginning?] using ih

/-- The escape of a character is its entity, or the character itself, which is then no `&`. -/
theorem escapeChar_cases (c : Char) :
    (escapeChar c, c) ∈ entities ∨ escapeChar c = [c] ∧ c ≠ '&' := by
  unfold escapeChar
  split
  · exact .inl (by decide)
  · exact .inl (by decide)
  · exact .inl (by decide)
  · exact .inl (by decide)
  · exact .inl (by decide)
  · rename_i hamp _ _ _ _
    exact .inr ⟨rfl, hamp⟩

theorem entity_begins : ∀ e ∈ entities, ∃ tail, e.1 = '&' :: tail ∧ '&' ∉ tail := by
  intro e he
  refine ⟨e.1.tail, ?_⟩
  revert e
  decide

theorem entityAt?_entity {e : List Char × Char} (he : e ∈ entities) (s : List Char) :
    entityAt? (e.1 ++ s) = some (e.2, s) := by
  simp only [entities, List.mem_cons, List.not_mem_nil, or_false] at he
  rcases he with rfl | rfl | rfl | rfl | rfl
  · rfl
  · rfl
  · rfl
  · rfl
  · rfl

theorem entityAt?_plain {c : Char} (hc : c ≠ '&') (s : List Char) :
    entityAt? (c :: s) = none := by
  refine List.findSome?_eq_none_iff.mpr fun e he => ?_
  obtain ⟨tail, htail, -⟩ := entity_begins e he
  rw [htail]
  unfold dropBeginning?
  rw [if_neg (by simpa using hc.symm)]
  rfl

theorem unescapeChars_escapeChar (c : Char) (s : List Char) :
    unescapeChars (escapeChar c ++ s) = c :: unescapeChars s := by
  rcases escapeChar_cases c with hentity | ⟨hself, hc⟩
  · obtain ⟨tail, htail, -⟩ := entity_begins _ hentity
    have hat := entityAt?_entity hentity s
    dsimp only at htail hat
    rw [htail, List.cons_append] at hat ⊢
    rw [unescapeChars]
    split
    · rename_i d rest hfound
      rw [hat] at hfound
      cases hfound
      rfl
    · rename_i hnone
      rw [hat] at hnone
      cases hnone
  · rw [hself, List.singleton_append, unescapeChars]
    split
    · rename_i d rest hfound
      rw [entityAt?_plain hc] at hfound
      cases hfound
    · rfl

theorem unescapeChars_escapeChars (s : List Char) : unescapeChars (escapeChars s) = s := by
  induction s with
  | nil => rw [escapeChars_nil, unescapeChars]
  | cons c s ih => rw [escapeChars_cons, unescapeChars_escapeChar, ih]

/-- The rest behind an `&` of an escaped text completes an entity. -/
theorem entity_of_ampersand {s before rest : List Char}
    (h : escapeChars s = before ++ '&' :: rest) : ∃ e ∈ entities, e.1 <+: '&' :: rest := by
  induction s generalizing before with
  | nil => simp at h
  | cons c s ih =>
    rw [escapeChars_cons] at h
    rcases List.append_eq_append_iff.mp h with ⟨more, hbefore, hs⟩ | ⟨inside, hc, hrest⟩
    · exact ih hs
    · cases inside with
      | nil =>
        have hs : escapeChars s = [] ++ '&' :: rest := hrest.symm
        exact ih hs
      | cons d inside =>
        rw [List.cons_append, List.cons.injEq] at hrest
        obtain ⟨rfl, hrest⟩ := hrest
        rcases escapeChar_cases c with hentity | ⟨hself, hamp⟩
        · obtain ⟨tail, htail, hno⟩ := entity_begins _ hentity
          dsimp only at htail
          cases before with
          | nil =>
            refine ⟨_, hentity, escapeChars s, ?_⟩
            dsimp only
            rw [hc, hrest]
            rfl
          | cons b before =>
            rw [htail, List.cons_append, List.cons.injEq] at hc
            refine absurd ?_ hno
            rw [hc.2]
            simp
        · have hmem : '&' ∈ escapeChar c := by
            rw [hc]
            simp
          rw [hself, List.mem_singleton] at hmem
          exact absurd hmem.symm hamp

theorem escapeChars_plain {s : List Char} (h : s.any needsEscape = false) : escapeChars s = s := by
  induction s with
  | nil => rfl
  | cons c s ih =>
    rw [List.any_cons, Bool.or_eq_false_iff] at h
    have hc : escapeChar c = [c] := by
      rcases escapeChar_cases c with hentity | ⟨hself, -⟩
      · have hneeds : ∀ e ∈ entities, needsEscape e.2 = true := by decide
        rw [hneeds _ hentity] at h
        cases h.1
      · exact hself
    rw [escapeChars_cons, hc, ih h.2, List.singleton_append]

/-- Whether or not a text has special characters, it is escaped character by character. -/
theorem escape_eq (s : String) : escape s = String.ofList (escapeChars s.toList) := by
  unfold escape
  split
  · rfl
  · rename_i hany
    rw [escapeChars_plain (Bool.eq_false_iff.mpr hany), String.ofList_toList]

theorem unescape_escape (s : String) : unescape (escape s) = s := by
  rw [unescape, escape_eq, String.toList_ofList, unescapeChars_escapeChars, String.ofList_toList]

/-- The escape of a text has no delimiter, and every `&` in it begins an entity; reading the
entities back from left to right gives the text again, so that no two texts have one escape; joined
texts have joined escapes; and what is returned without a look at single characters is what
escaping them one by one would give. -/
theorem escape_reversible (s : String) :
    (∀ c ∈ (escape s).toList, isDelimiter c = false) ∧
      (∀ before rest, (escape s).toList = before ++ '&' :: rest →
        ∃ e ∈ entities, e.1 <+: '&' :: rest) ∧
      unescape (escape s) = s ∧
      (∀ t, escape t = escape s → t = s) ∧
      (∀ t, escape (s ++ t) = escape s ++ escape t) ∧
      escape s = String.ofList (s.toList.flatMap escapeChar) := by
  refine ⟨fun c => escape_clean s, fun before rest h => ?_, unescape_escape s, fun t h => ?_,
    fun t => ?_, escape_eq s⟩
  · rw [escape_eq, String.toList_ofList] at h
    exact entity_of_ampersand h
  · rw [← unescape_escape t, h, unescape_escape]
  · simp only [escape_eq, String.toList_append, escapeChars_append, String.ofList_append]

end Text

end Stencil
