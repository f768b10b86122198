import Mathlib.Data.List.TakeWhile
import Stencil.Expr.Lexeme

/-!
# Where numbers end

A number is read up to where it ends, and what follows is looked at only to tell that it does end
there. So the same number is read in front of another text that shows the same, or a blank.
-/

namespace Stencil.Expr

/-- A text that continues no lexeme: nothing, or one that begins with a blank or a line end. -/
def Inert (s : List Char) : Prop := ∀ c ∈ s.head?, c = ' ' ∨ c = '\n'

def SameHead (rest rest' : List Char) : Prop := rest'.head? = rest.head? ∨ Inert rest'

/-- The second text may follow a lexeme in place of the first: both begin alike, up to where the
second is inert, and where a number may end in front of the first, it may in front of the second. -/
structure Follows (rest rest' : List Char) : Prop where
  shared : ∃ z y y', rest = z ++ y ∧ rest' = z ++ y' ∧ Inert y'
  mayEnd : Numeral.mayEnd rest → Numeral.mayEnd rest'

section

variable {rest rest' : List Char}

theorem Follows.head (h : Follows rest rest') : SameHead rest rest' := by
  obtain ⟨z, y, y', rfl, rfl, hy'⟩ := h.shared
  cases z with
  | nil => exact .inr hy'
  | cons c z => exact .inl rfl

theorem Follows.append (h : Follows rest rest') (read : List Char) :
    SameHead (read ++ rest) (read ++ rest') := by
  cases read with
  | nil => exact h.head
  | cons c read => exact .inl rfl

/-- What does not hold of the first character of the one nor of an inert one does not hold of the
first character of the other. -/
theorem SameHead.any {p : Char → Bool} (h : SameHead rest rest') (hblank : p ' ' = false)
    (hline : p '\n' = false) (hrest : rest.head?.any p = false) : rest'.head?.any p = false := by
  rcases h with heq | hinert
  · rw [heq, hrest]
  · cases hhead : rest'.head? with
    | none => rfl
    | some c =>
      rcases hinert c hhead with rfl | rfl
      · exact hblank
      · exact hline

end

/-- A reader of texts looks at what follows only to tell that it has ended. -/
def Exact {α : Type} (p : List Char → Option (α × List Char)) : Prop :=
  ∀ {s rest : List Char} {a : α}, p s = some (a, rest) →
    ∃ read, s = read ++ rest ∧ ∀ rest', Follows rest rest' → p (read ++ rest') = some (a, rest')

namespace Numeral

section

variable {isDigit : Char → Bool}

theorem takeWhile_of_head {p : Char → Bool} {s t : List Char} (hs : ∀ c ∈ s, p c)
    (ht : t.head?.any p = false) : (s ++ t).takeWhile p = s := by
  rw [List.takeWhile_append_of_pos hs]
  cases t with
  | nil => simp
  | cons c t =>
    have hc : p c = false := ht
    simp [hc]

theorem drop_takeWhile {p : Char → Bool} (s : List Char) :
    s.drop (s.takeWhile p).length = s.dropWhile p :=
  calc s.drop (s.takeWhile p).length
      = (s.takeWhile p ++ s.dropWhile p).drop (s.takeWhile p).length := by
        rw [List.takeWhile_append_dropWhile]
    _ = s.dropWhile p := List.drop_left

theorem head_dropWhile {p : Char → Bool} (s : List Char) : (s.dropWhile p).head?.any p = false := by
  have h := List.head?_dropWhile_not p s
  cases hs : (s.dropWhile p).head? with
  | none => rfl
  | some c =>
    rw [hs] at h
    simpa using h

theorem digitGroups_succ (fuel : Nat) (s : List Char) :
    digitGroups isDigit (fuel + 1) s =
      match s.drop (s.takeWhile isDigit).length with
      | '_' :: d :: rest =>
        if isDigit d then
          (digitGroups isDigit fuel (d :: rest)).map fun r => (s.takeWhile isDigit ++ r.1, r.2)
        else none
      | ['_'] => none
      | after => some (s.takeWhile isDigit, after) := rfl

theorem digitGroups_stop {fuel : Nat} {digits after : List Char} (hdigits : ∀ c ∈ digits, isDigit c)
    (hafter : after.head?.any isDigit = false) (hjoin : after.head? ≠ some '_') :
    digitGroups isDigit (fuel + 1) (digits ++ after) = some (digits, after) := by
  rw [digitGroups_succ, takeWhile_of_head hdigits hafter, List.drop_left]
  split
  · exact absurd rfl hjoin
  · exact absurd rfl hjoin
  · rfl

theorem digitGroups_joined {fuel : Nat} {digits more : List Char}
    (hdigits : ∀ c ∈ digits, isDigit c) (hjoin : isDigit '_' = false) :
    digitGroups isDigit (fuel + 1) (digits ++ '_' :: more) =
      if more.head?.any isDigit then
        (digitGroups isDigit fuel more).map fun r => (digits ++ r.1, r.2)
      else none := by
  rw [digitGroups_succ, takeWhile_of_head hdigits (by simpa using hjoin), List.drop_left]
  cases more with
  | nil => rfl
  | cons d more => rfl

theorem digitGroups_exact (hblank : isDigit ' ' = false) (hline : isDigit '\n' = false)
    (hjoin : isDigit '_' = false) {fuel : Nat} {s digits rest : List Char}
    (h : digitGroups isDigit fuel s = some (digits, rest)) :
    ∃ read, s = read ++ rest ∧ (s.head?.any isDigit → read.head? = s.head?) ∧
      ∀ rest' fuel', SameHead rest rest' → read.length < fuel' →
        digitGroups isDigit fuel' (read ++ rest') = some (digits, rest') := by
  induction fuel generalizing s digits with
  | zero => cases h
  | succ fuel ih =>
    have hall : ∀ c ∈ s.takeWhile isDigit, isDigit c := fun c hc => List.mem_takeWhile_imp hc
    have hs : s = s.takeWhile isDigit ++ s.dropWhile isDigit :=
      (List.takeWhile_append_dropWhile).symm
    have hhead := head_dropWhile (p := isDigit) s
    generalize s.takeWhile isDigit = first at hall hs
    generalize s.dropWhile isDigit = after at hs hhead
    subst hs
    have hfirst (more : List Char) :
        (first ++ after).head?.any isDigit → (first ++ more).head? = (first ++ after).head? := by
      intro hdigit
      cases first with
      | nil => exact absurd (hdigit.symm.trans hhead) nofun
      | cons c first => rfl
    by_cases hgroup : after.head? = some '_'
    · obtain ⟨more, rfl⟩ := List.head?_eq_some_iff.mp hgroup
      rw [digitGroups_joined hall hjoin] at h
      split at h
      · rename_i hmore
        obtain ⟨⟨digits', rest''⟩, hrun, heq⟩ := Option.map_eq_some_iff.mp h
        cases heq
        obtain ⟨read, rfl, hread, hexact⟩ := ih hrun
        refine ⟨first ++ '_' :: read, by simp, fun hdigit => ?_, fun rest' fuel' hsame hfuel' => ?_⟩
        · exact hfirst _ hdigit
        · obtain ⟨fuel', rfl⟩ : ∃ f, fuel' = f + 1 := ⟨fuel' - 1, by omega⟩
          rw [List.length_append, List.length_cons] at hfuel'
          have hmore' : (read ++ rest').head?.any isDigit := by
            have hhead := hread hmore
            cases read with
            | nil => rw [← hhead] at hmore; cases hmore
            | cons d read => exact hmore
          rw [List.append_assoc, List.cons_append, digitGroups_joined hall hjoin, if_pos hmore',
            hexact rest' fuel' hsame (by omega)]
          rfl
      · cases h
    · rw [digitGroups_stop hall hhead hgroup] at h
      cases h
      refine ⟨_, rfl, fun hdigit => ?_, fun rest' fuel' hsame hfuel' => ?_⟩
      · have h := hfirst [] hdigit
        rwa [List.append_nil] at h
      · obtain ⟨fuel', rfl⟩ : ∃ f, fuel' = f + 1 := ⟨fuel' - 1, by omega⟩
        refine digitGroups_stop hall (hsame.any hblank hline hhead) ?_
        have hunder : rest.head?.any (· == '_') = false := by
          cases rest with
          | nil => rfl
          | cons c rest => simpa using hgroup
        have hunder' := hsame.any (by decide) (by decide) hunder
        intro heq
        rw [heq] at hunder'
        cases hunder'

theorem groups_exact (hblank : isDigit ' ' = false) (hline : isDigit '\n' = false)
    (hjoin : isDigit '_' = false) {s digits rest : List Char}
    (h : groups isDigit s = some (digits, rest)) :
    ∃ read, s = read ++ rest ∧ (s.head?.any isDigit → read.head? = s.head?) ∧
      ∀ rest', SameHead rest rest' → groups isDigit (read ++ rest') = some (digits, rest') := by
  obtain ⟨read, hs, hhead, hexact⟩ := digitGroups_exact hblank hline hjoin h
  refine ⟨read, hs, hhead, fun rest' hsame => hexact rest' _ hsame ?_⟩
  rw [List.length_append]
  omega

end

theorem ended_eq_some {value v : Literal} {rest after : List Char} :
    ended value rest = some (v, after) ↔ mayEnd rest ∧ value = v ∧ rest = after := by
  unfold ended
  split <;> simp_all

/-- Digits in a base behind the underscore that may separate them from its letter. -/
def basedDigits (base : Nat) (s : List Char) : Option (Literal × List Char) :=
  if !s.head?.any fun c => Number.digitValue c < base then none
  else match groups (fun c => Number.digitValue c < base) s with
  | none => none
  | some (digits, after) =>
    if after.head?.any Char.isDigit then none
    else ended (.int (Number.natOfDigits base digits)) after

/-- What follows an underscore that separates digits from the letter of their base. -/
def behindUnderscore (s : List Char) : List Char :=
  match s with
  | '_' :: more => more
  | _ => s

theorem behindUnderscore_of_ne {s : List Char} (hs : s.head? ≠ some '_') :
    behindUnderscore s = s := by
  unfold behindUnderscore
  split
  · exact absurd rfl hs
  · rfl

theorem based_eq (base : Nat) (s : List Char) :
    based base s = basedDigits base (behindUnderscore s) := rfl

theorem basedDigits_exact {base : Nat} (hbase : base ≤ 16) {s rest : List Char} {v : Literal}
    (h : basedDigits base s = some (v, rest)) :
    ∃ read c, s = read ++ rest ∧ read.head? = some c ∧ c ≠ '_' ∧
      ∀ rest', Follows rest rest' → basedDigits base (read ++ rest') = some (v, rest') := by
  have hvalue (c : Char) (hc : 16 ≤ Number.digitValue c) :
      decide (Number.digitValue c < base) = false := by
    simpa using Nat.le_trans hbase hc
  unfold basedDigits at h
  split at h
  · cases h
  rename_i hdigit
  rw [Bool.not_eq_true, Bool.not_eq_false'] at hdigit
  split at h
  · cases h
  rename_i digits after hgroups
  obtain ⟨read, rfl, hhead, hexact⟩ := groups_exact (hvalue ' ' (by decide))
    (hvalue '\n' (by decide)) (hvalue '_' (by decide)) hgroups
  have hread := hhead hdigit
  rw [← hread] at hdigit
  split at h
  · cases h
  rename_i hlast
  rw [Bool.not_eq_true] at hlast
  obtain ⟨hends, rfl, rfl⟩ := ended_eq_some.mp h
  obtain ⟨c, hc, hcdigit⟩ := Option.any_eq_true _ _ |>.mp hdigit
  refine ⟨read, c, rfl, hc, ?_, fun rest' hfollows => ?_⟩
  · rintro rfl
    rw [hvalue '_' (by decide)] at hcdigit
    cases hcdigit
  · have hhead' : (read ++ rest').head? = some c := by
      rw [List.head?_append, hc]
      rfl
    unfold basedDigits
    rw [hhead', hexact rest' hfollows.head]
    have hlast' := hfollows.head.any (by decide) (by decide) hlast
    simp only [Option.any_some, hcdigit, Bool.not_true, Bool.false_eq_true, if_false, hlast']
    exact ended_eq_some.mpr ⟨hfollows.mayEnd hends, rfl, rfl⟩

theorem based_exact {base : Nat} (hbase : base ≤ 16) : Exact (based base) := by
  intro s rest v h
  obtain ⟨read, c, hs, hc, hne, hexact⟩ := basedDigits_exact hbase (based_eq base s ▸ h)
  by_cases hunder : s.head? = some '_'
  · obtain ⟨more, rfl⟩ := List.head?_eq_some_iff.mp hunder
    exact ⟨'_' :: read, congrArg ('_' :: ·) hs, hexact⟩
  · rw [behindUnderscore_of_ne hunder] at hs
    refine ⟨read, hs, fun rest' hfollows => ?_⟩
    have hhead : (read ++ rest').head? = some c := by
      rw [List.head?_append, hc]
      rfl
    rw [based_eq, behindUnderscore_of_ne (by rw [hhead]; simpa using hne)]
    exact hexact rest' hfollows

/-- The value of digits without the mark of an imaginary number. -/
def realValue (whole fraction : List Char) (exponent : Int) (real : Bool) : Option Literal :=
  let digits := whole ++ fraction
  if real then
    some (.float (Number.ofDecimal false (Number.natOfDigits 10 digits) (exponent - fraction.length)))
  else if digits.length > 1 && digits.head? = some '0' && digits.any (· ≠ '0') then none
  else if digits.length > 4300 then none
  else some (.int (Number.natOfDigits 10 digits))

/-- The value of the digits read, with the mark of an imaginary number or without it. -/
def finished (whole fraction : List Char) (exponent : Int) (real : Bool) (rest : List Char) :
    Option (Literal × List Char) :=
  let digits := whole ++ fraction
  let value := Number.ofDecimal false (Number.natOfDigits 10 digits) (exponent - fraction.length)
  match rest with
  | 'j' :: after | 'J' :: after => ended (.imaginary value) after
  | _ =>
    if real then ended (.float value) rest
    else if digits.length > 1 && digits.head? = some '0' && digits.any (· ≠ '0') then none
    else if digits.length > 4300 then none
    else ended (.int (Number.natOfDigits 10 digits)) rest

def isImaginaryMark (c : Char) : Bool := c = 'j' || c = 'J'

section

variable {whole fraction : List Char} {exponent : Int} {real : Bool}

theorem finished_imaginary {c : Char} (hc : isImaginaryMark c) (after : List Char) :
    finished whole fraction exponent real (c :: after) =
      ended (.imaginary (Number.ofDecimal false (Number.natOfDigits 10 (whole ++ fraction))
        (exponent - fraction.length))) after := by
  rcases Bool.or_eq_true_iff.mp hc with h | h <;> cases of_decide_eq_true h <;> rfl

theorem finished_real {s : List Char} (hs : s.head?.any isImaginaryMark = false) :
    finished whole fraction exponent real s =
      (realValue whole fraction exponent real).bind (ended · s) := by
  unfold finished realValue
  split
  · cases hs
  · cases hs
  · dsimp only
    split
    · rfl
    split
    · rfl
    split
    · rfl
    · rfl

theorem finished_exact : Exact (finished whole fraction exponent real) := by
  intro s rest v h
  by_cases hs : s.head?.any isImaginaryMark
  · obtain ⟨c, hc, hmark⟩ := (Option.any_eq_true _ _).mp hs
    obtain ⟨after, rfl⟩ := List.head?_eq_some_iff.mp hc
    rw [finished_imaginary hmark] at h
    obtain ⟨hends, rfl, rfl⟩ := ended_eq_some.mp h
    refine ⟨[c], rfl, fun rest' hfollows => ?_⟩
    rw [List.singleton_append, finished_imaginary hmark]
    exact ended_eq_some.mpr ⟨hfollows.mayEnd hends, rfl, rfl⟩
  · rw [Bool.not_eq_true] at hs
    rw [finished_real hs] at h
    obtain ⟨value, hvalue, hended⟩ := Option.bind_eq_some_iff.mp h
    obtain ⟨hends, rfl, rfl⟩ := ended_eq_some.mp hended
    refine ⟨[], rfl, fun rest' hfollows => ?_⟩
    rw [List.nil_append, finished_real (hfollows.head.any (by decide) (by decide) hs), hvalue]
    exact ended_eq_some.mpr ⟨hfollows.mayEnd hends, rfl, rfl⟩

end

/-- Whether an exponent is negative, whether it has a sign, and what follows the sign. -/
def signed (after : List Char) : Bool × Bool × List Char :=
  match after with
  | '-' :: more => (true, true, more)
  | '+' :: more => (false, true, more)
  | _ => (false, false, after)

def isExponentMark (c : Char) : Bool := c = 'e' || c = 'E'

theorem withExponent_cons (whole fraction : List Char) (real : Bool) (e : Char) (after : List Char) :
    withExponent whole fraction real (e :: after) =
      if isExponentMark e then
        if (signed after).2.2.head?.any Char.isDigit then
          match groups Char.isDigit (signed after).2.2 with
          | none => none
          | some (digits, more) =>
            let k : Int := Number.natOfDigits 10 digits
            finished whole fraction (if (signed after).1 then -k else k) true more
        else if (signed after).2.1 then none
        else finished whole fraction 0 real (e :: after)
      else finished whole fraction 0 real (e :: after) := by
  rfl

def isSign (c : Char) : Bool := c = '-' || c = '+'

theorem signed_of_sign {c : Char} (hc : isSign c) (t : List Char) :
    signed (c :: t) = (decide (c = '-'), true, t) := by
  rcases Bool.or_eq_true_iff.mp hc with h | h <;> cases of_decide_eq_true h <;> rfl

theorem signed_of_ne {s : List Char} (hs : s.head?.any isSign = false) :
    signed s = (false, false, s) := by
  unfold signed
  split
  · cases hs
  · cases hs
  · rfl

theorem signed_split (s : List Char) :
    ∃ sign, s = sign ++ (signed s).2.2 ∧
      ∀ t, t.head?.any Char.isDigit → signed (sign ++ t) = ((signed s).1, (signed s).2.1, t) := by
  by_cases hs : s.head?.any isSign
  · obtain ⟨c, hc, hsign⟩ := (Option.any_eq_true _ _).mp hs
    obtain ⟨after, rfl⟩ := List.head?_eq_some_iff.mp hc
    refine ⟨[c], ?_, fun t _ => ?_⟩
    · rw [signed_of_sign hsign]
      rfl
    · rw [signed_of_sign hsign, List.singleton_append, signed_of_sign hsign]
  · rw [Bool.not_eq_true] at hs
    refine ⟨[], ?_, fun t ht => ?_⟩
    · rw [signed_of_ne hs]
      rfl
    · rw [signed_of_ne hs, List.nil_append, signed_of_ne]
      obtain ⟨d, hd, hdigit⟩ := (Option.any_eq_true _ _).mp ht
      rw [hd, Option.any_some]
      cases hsign : isSign d with
      | false => rfl
      | true =>
        rcases Bool.or_eq_true_iff.mp hsign with h | h <;> cases of_decide_eq_true h <;> cases hdigit

section

variable {whole fraction : List Char} {real : Bool}

theorem withExponent_of_head {s : List Char} (hs : s.head?.any isExponentMark = false) :
    withExponent whole fraction real s = finished whole fraction 0 real s := by
  cases s with
  | nil => rfl
  | cons c s => rw [withExponent_cons, if_neg (by simpa using hs)]

theorem withExponent_of_no_digits {e : Char} {after : List Char}
    (hsign : after.head?.any isSign = false) (hdigit : after.head?.any Char.isDigit = false) :
    withExponent whole fraction real (e :: after) = finished whole fraction 0 real (e :: after) := by
  rw [withExponent_cons, signed_of_ne hsign]
  split
  · simp only [hdigit, Bool.false_eq_true, if_false]
  · rfl

theorem withExponent_exact : Exact (withExponent whole fraction real) := by
  intro s rest v h
  by_cases hs : s.head?.any isExponentMark
  · obtain ⟨e, he, hmark⟩ := (Option.any_eq_true _ _).mp hs
    obtain ⟨after, rfl⟩ := List.head?_eq_some_iff.mp he
    rw [withExponent_cons, if_pos hmark] at h
    obtain ⟨sign, hsign, hsigned⟩ := signed_split after
    split at h
    · rename_i hdigit
      split at h
      · cases h
      rename_i digits more hgroups
      dsimp only at h
      obtain ⟨read, hpower, hhead, hexact⟩ := groups_exact (by decide) (by decide) (by decide) hgroups
      obtain ⟨read', rfl, hexact'⟩ := finished_exact h
      refine ⟨e :: (sign ++ (read ++ read')), ?_, fun rest' hfollows => ?_⟩
      · rw [List.cons_append, List.append_assoc, List.append_assoc, ← hpower, ← hsign]
      · have hread := hexact (read' ++ rest') (hfollows.append read')
        obtain ⟨d, hd, hdd⟩ := (Option.any_eq_true _ _).mp hdigit
        have hdigit' : (read ++ (read' ++ rest')).head?.any Char.isDigit := by
          rw [List.head?_append, hhead hdigit, hd]
          exact hdd
        rw [List.cons_append, List.append_assoc, List.append_assoc, withExponent_cons, if_pos hmark,
          hsigned _ hdigit', if_pos hdigit', hread]
        exact hexact' rest' hfollows
    · rename_i hdigit
      have hnosign : after.head?.any isSign = false := by
        cases hs : after.head?.any isSign with
        | false => rfl
        | true =>
          obtain ⟨c, hc, hcs⟩ := (Option.any_eq_true _ _).mp hs
          obtain ⟨t, rfl⟩ := List.head?_eq_some_iff.mp hc
          rw [signed_of_sign hcs] at h
          cases h
      rw [signed_of_ne hnosign] at h hdigit
      rw [Bool.not_eq_true] at hdigit
      have hmarked : (e :: after).head?.any isImaginaryMark = false := by
        rcases Bool.or_eq_true_iff.mp hmark with h | h <;> cases of_decide_eq_true h <;> rfl
      rw [if_neg Bool.false_ne_true, finished_real hmarked] at h
      obtain ⟨value, hvalue, hended⟩ := Option.bind_eq_some_iff.mp h
      obtain ⟨hends, rfl, rfl⟩ := ended_eq_some.mp hended
      refine ⟨[], rfl, fun rest' hfollows => ?_⟩
      have hfinished : finished whole fraction 0 real rest' = some (value, rest') := by
        rw [finished_real (hfollows.head.any (by decide) (by decide) hmarked), hvalue]
        exact ended_eq_some.mpr ⟨hfollows.mayEnd hends, rfl, rfl⟩
      obtain ⟨z, y, y', hz, rfl, hy'⟩ := hfollows.shared
      cases z with
      | nil =>
        rw [List.nil_append, withExponent_of_head]
        · exact hfinished
        · exact (show SameHead [] y' from .inr hy').any (by decide) (by decide) rfl
      | cons c z =>
        cases hz
        have hsame : SameHead (z ++ y) (z ++ y') := by
          cases z with
          | nil => exact .inr hy'
          | cons d z => exact .inl rfl
        rw [List.nil_append, List.cons_append, withExponent_of_no_digits]
        · exact hfinished
        · exact hsame.any (by decide) (by decide) hnosign
        · exact hsame.any (by decide) (by decide) hdigit
  · rw [Bool.not_eq_true] at hs
    rw [withExponent_of_head hs] at h
    obtain ⟨read, rfl, hexact⟩ := finished_exact h
    refine ⟨read, rfl, fun rest' hfollows => ?_⟩
    rw [withExponent_of_head ((hfollows.append read).any (by decide) (by decide) hs)]
    exact hexact rest' hfollows

end

def fractional (whole after : List Char) : Option (Literal × List Char) :=
  if after.head?.any Char.isDigit then
    match groups Char.isDigit after with
    | none => none
    | some (fraction, more) => withExponent whole fraction true more
  else withExponent whole [] true after

theorem fractional_exact {whole s rest : List Char} {v : Literal}
    (h : fractional whole s = some (v, rest)) :
    ∃ read, s = read ++ rest ∧ (s.head?.any Char.isDigit → read.head? = s.head?) ∧
      ∀ rest', Follows rest rest' → fractional whole (read ++ rest') = some (v, rest') := by
  unfold fractional at h
  split at h
  · rename_i hdigit
    split at h
    · cases h
    rename_i fraction more hgroups
    obtain ⟨read, rfl, hhead, hexact⟩ := groups_exact (by decide) (by decide) (by decide) hgroups
    obtain ⟨read', rfl, hexact'⟩ := withExponent_exact h
    obtain ⟨d, hd, hdd⟩ := (Option.any_eq_true _ _).mp hdigit
    have hread (t : List Char) : (read ++ t).head? = some d := by
      rw [List.head?_append, hhead hdigit, hd]
      rfl
    refine ⟨read ++ read', (List.append_assoc _ _ _).symm, fun _ => (hread _).trans hd.symm,
      fun rest' hfollows => ?_⟩
    have hdigit' : (read ++ (read' ++ rest')).head?.any Char.isDigit := by
      rw [hread]
      exact hdd
    unfold fractional
    rw [List.append_assoc, if_pos hdigit', hexact _ (hfollows.append read')]
    exact hexact' rest' hfollows
  · rename_i hdigit
    rw [Bool.not_eq_true] at hdigit
    obtain ⟨read, rfl, hexact⟩ := withExponent_exact h
    refine ⟨read, rfl, fun h => absurd (h.symm.trans hdigit) nofun, fun rest' hfollows => ?_⟩
    have hdigit' := (hfollows.append read).any (by decide) (by decide) hdigit
    unfold fractional
    rw [if_neg (by rw [hdigit']; exact Bool.false_ne_true)]
    exact hexact rest' hfollows

theorem decimal_point {s whole after : List Char}
    (h : groups Char.isDigit s = some (whole, '.' :: after)) : decimal s = fractional whole after := by
  rw [decimal, h]
  rfl

theorem decimal_whole {s whole rest : List Char} (h : groups Char.isDigit s = some (whole, rest))
    (hrest : rest.head? ≠ some '.') : decimal s = withExponent whole [] false rest := by
  rw [decimal, h]
  dsimp only
  split
  · exact absurd rfl hrest
  · rfl

theorem decimal_exact {s rest : List Char} {v : Literal} (h : decimal s = some (v, rest)) :
    ∃ read, s = read ++ rest ∧ (s.head?.any Char.isDigit → read.head? = s.head?) ∧
      ∀ rest', Follows rest rest' → decimal (read ++ rest') = some (v, rest') := by
  cases hgroups : groups Char.isDigit s with
  | none =>
    rw [decimal, hgroups] at h
    cases h
  | some r =>
    obtain ⟨whole, more⟩ := r
    obtain ⟨read, rfl, hhead, hexact⟩ := groups_exact (by decide) (by decide) (by decide) hgroups
    have hhead' (t : List Char) : (read ++ more).head?.any Char.isDigit →
        (read ++ t).head? = (read ++ more).head? := by
      intro hdigit
      obtain ⟨d, hd, -⟩ := (Option.any_eq_true _ _).mp hdigit
      rw [List.head?_append, hhead hdigit, hd]
      rfl
    by_cases hpoint : more.head? = some '.'
    · obtain ⟨after, rfl⟩ := List.head?_eq_some_iff.mp hpoint
      rw [decimal_point hgroups] at h
      obtain ⟨read', rfl, -, hexact'⟩ := fractional_exact h
      refine ⟨read ++ '.' :: read', by simp, hhead' _, fun rest' hfollows => ?_⟩
      have hsame : SameHead ('.' :: (read' ++ rest)) ('.' :: (read' ++ rest')) := .inl rfl
      rw [List.append_assoc, List.cons_append, decimal_point (hexact _ hsame)]
      exact hexact' rest' hfollows
    · rw [decimal_whole hgroups hpoint] at h
      obtain ⟨read', rfl, hexact'⟩ := withExponent_exact h
      refine ⟨read ++ read', by simp, hhead' _, fun rest' hfollows => ?_⟩
      have hsame := hfollows.append read'
      have hpoint' : (read' ++ rest').head? ≠ some '.' := by
        intro heq
        rcases hsame with hsame | hinert
        · exact hpoint (hsame.symm.trans heq)
        · rcases hinert '.' heq with h | h <;> cases h
      rw [List.append_assoc, decimal_whole (hexact _ hsame) hpoint']
      exact hexact' rest' hfollows

def baseOf (c : Char) : Option Nat :=
  match c.toLower with
  | 'x' => some 16
  | 'o' => some 8
  | 'b' => some 2
  | _ => none

theorem read?_zero (c : Char) (rest : List Char) :
    read? ('0' :: c :: rest) =
      match baseOf c with
      | some base => based base rest
      | none => decimal ('0' :: c :: rest) := by
  rw [read?, baseOf]
  generalize c.toLower = d
  split
  · rfl
  · rfl
  · rfl
  · -- the letter is none of the three, so there is no base
    simp_all

theorem baseOf_le {c : Char} {base : Nat} (h : baseOf c = some base) : base ≤ 16 := by
  unfold baseOf at h
  split at h <;> cases h <;> decide

theorem read?_decimal {s : List Char} (hzero : ∀ c ∈ s.tail.head?, s.head? = some '0' → baseOf c = none)
    (hpoint : s.head? ≠ some '.') : read? s = decimal s := by
  cases s with
  | nil => rfl
  | cons c s =>
    by_cases hc : c = '0'
    · subst hc
      cases s with
      | nil => rfl
      | cons d s => rw [read?_zero, hzero d rfl rfl]
    · unfold read?
      split
      · rename_i heq
        cases heq
        exact absurd rfl hc
      · rename_i heq
        cases heq
        exact absurd rfl hpoint
      · rfl

theorem read?_point {after : List Char} (h : after.head?.any Char.isDigit) :
    read? ('.' :: after) = fractional [] after := by
  rw [fractional, if_pos h]
  rfl

def begins (c : Char) (cs : List Char) : Bool :=
  c.isDigit || (c = '.' && cs.head?.any Char.isDigit)

theorem read?_exact {c : Char} {cs rest : List Char} {v : Literal} (hc : begins c cs)
    (h : read? (c :: cs) = some (v, rest)) :
    ∃ read, cs = read ++ rest ∧ (c = '.' → read.head? = cs.head?) ∧
      ∀ rest', Follows rest rest' → read? (c :: (read ++ rest')) = some (v, rest') := by
  by_cases hpoint : c = '.'
  · subst hpoint
    have hdigit : cs.head?.any Char.isDigit := hc
    obtain ⟨d, hd, hdd⟩ := (Option.any_eq_true _ _).mp hdigit
    rw [read?_point hdigit] at h
    obtain ⟨read, rfl, hhead, hexact⟩ := fractional_exact h
    refine ⟨read, rfl, fun _ => hhead hdigit, fun rest' hfollows => ?_⟩
    have hdigit' : (read ++ rest').head?.any Char.isDigit := by
      rw [List.head?_append, hhead hdigit, hd]
      exact hdd
    rw [read?_point hdigit']
    exact hexact rest' hfollows
  by_cases hbase : ∃ d after base, c :: cs = '0' :: d :: after ∧ baseOf d = some base
  · obtain ⟨d, after, base, heq, hbase⟩ := hbase
    cases heq
    rw [read?_zero, hbase] at h
    obtain ⟨read, rfl, hexact⟩ := based_exact (baseOf_le hbase) h
    refine ⟨d :: read, rfl, fun h => absurd h hpoint, fun rest' hfollows => ?_⟩
    rw [List.cons_append, read?_zero, hbase]
    exact hexact rest' hfollows
  · have hzero : ∀ d ∈ (c :: cs).tail.head?, (c :: cs).head? = some '0' → baseOf d = none := by
      intro d hd hhead
      obtain ⟨t, ht⟩ := List.head?_eq_some_iff.mp hhead
      obtain ⟨after, rfl⟩ := List.head?_eq_some_iff.mp hd
      cases ht
      cases hb : baseOf d with
      | none => rfl
      | some base => exact absurd ⟨d, after, base, rfl, hb⟩ hbase
    have hpoint' : (c :: cs).head? ≠ some '.' := fun h => hpoint (Option.some.inj h)
    rw [read?_decimal hzero hpoint'] at h
    have hdigit : (c :: cs).head?.any Char.isDigit := by simpa [begins, hpoint] using hc
    obtain ⟨read, hread, hhead, hexact⟩ := decimal_exact h
    obtain ⟨read, rfl⟩ := List.head?_eq_some_iff.mp (hhead hdigit)
    cases hread
    refine ⟨read, rfl, fun h => absurd h hpoint, fun rest' hfollows => ?_⟩
    rw [read?_decimal]
    · exact hexact rest' hfollows
    · intro d hd hzero'
      rcases hfollows.append read with hsame | hinert
      · exact hzero d (hsame.symm.trans hd) hzero'
      · rcases hinert d hd with rfl | rfl <;> rfl
    · exact hpoint'

theorem begins_append {c : Char} {read rest : List Char} (h : begins c (read ++ rest))
    (hhead : c = '.' → read.head? = (read ++ rest).head?) (rest' : List Char) :
    begins c (read ++ rest') = begins c (read ++ rest) := by
  by_cases hc : c = '.'
  · subst hc
    have hdigit : (read ++ rest).head?.any Char.isDigit := h
    obtain ⟨d, hd, hdd⟩ := (Option.any_eq_true _ _).mp hdigit
    have hread := (hhead rfl).trans hd
    have hhead' : (read ++ rest').head? = some d := by
      rw [List.head?_append, hread]
      rfl
    unfold begins
    rw [hhead', hd]
  · simp [begins, hc]

/-- A letter, a digit, an underscore, a point or a sign. -/
def isNumberChar (c : Char) : Bool := Text.isAsciiWord c || ['.', '+', '-'].contains c

/-- What stands in front of the rest of a text may be part of a number. -/
def Joined (s rest : List Char) : Prop := ∃ read, s = read ++ rest ∧ ∀ c ∈ read, isNumberChar c

namespace Joined

variable {s t u : List Char} {c : Char}

theorem refl (s : List Char) : Joined s s := ⟨[], rfl, nofun⟩

theorem trans (h : Joined s t) (h' : Joined t u) : Joined s u := by
  obtain ⟨read, rfl, hread⟩ := h
  obtain ⟨read', rfl, hread'⟩ := h'
  exact ⟨read ++ read', (List.append_assoc ..).symm, List.forall_mem_append.mpr ⟨hread, hread'⟩⟩

theorem cons (hc : isNumberChar c) (h : Joined s t) : Joined (c :: s) t := by
  obtain ⟨read, rfl, hread⟩ := h
  exact ⟨c :: read, rfl, List.forall_mem_cons.mpr ⟨hc, hread⟩⟩

end Joined

theorem isNumberChar_of_isDigit {c : Char} (h : c.isDigit) : isNumberChar c := by
  simp [isNumberChar, Text.isAsciiWord, h]

theorem joined_takeWhile {p : Char → Bool} (hp : ∀ c, p c → isNumberChar c) (s : List Char) :
    Joined s (s.drop (s.takeWhile p).length) := by
  refine ⟨s.takeWhile p, ?_, fun c hc => hp c (List.mem_takeWhile_imp hc)⟩
  rw [drop_takeWhile, List.takeWhile_append_dropWhile]

theorem joined_groups {isDigit : Char → Bool} (hdigit : ∀ c, isDigit c → isNumberChar c)
    {s digits rest : List Char} (h : groups isDigit s = some (digits, rest)) : Joined s rest := by
  unfold groups at h
  generalize s.length + 1 = fuel at h
  induction fuel generalizing s digits with
  | zero => cases h
  | succ fuel ih =>
    have hdigits := joined_takeWhile hdigit s
    rw [digitGroups_succ] at h
    split at h
    · rename_i d more hdrop
      rw [hdrop] at hdigits
      split at h
      · obtain ⟨⟨digits', rest⟩, hrun, heq⟩ := Option.map_eq_some_iff.mp h
        cases heq
        exact hdigits.trans ((ih hrun).cons rfl)
      · cases h
    · cases h
    · cases h
      exact hdigits

theorem joined_ended {value v : Literal} {s rest : List Char} (h : ended value s = some (v, rest)) :
    Joined s rest := by
  obtain ⟨-, -, rfl⟩ := ended_eq_some.mp h
  exact .refl s

theorem isNumberChar_of_digitValue {base : Nat} (hbase : base ≤ 16) (c : Char)
    (h : decide (Number.digitValue c < base)) : isNumberChar c := by
  have hlt : Number.digitValue c < 36 := by
    have h := of_decide_eq_true h
    omega
  unfold Number.digitValue at hlt
  unfold isNumberChar Text.isAsciiWord Text.isAsciiLetter
  split_ifs at hlt <;> simp_all

theorem joined_based {base : Nat} (hbase : base ≤ 16) {s rest : List Char} {v : Literal}
    (h : based base s = some (v, rest)) : Joined s rest := by
  have hbehind : Joined s (behindUnderscore s) := by
    unfold behindUnderscore
    split
    · exact (Joined.refl _).cons rfl
    · exact .refl s
  rw [based_eq] at h
  refine hbehind.trans ?_
  generalize behindUnderscore s = s at h
  unfold basedDigits at h
  split at h
  · cases h
  · split at h
    · cases h
    · rename_i digits after hgroups
      split at h
      · cases h
      · exact (joined_groups (isNumberChar_of_digitValue hbase) hgroups).trans (joined_ended h)

section

variable {whole fraction s rest : List Char} {real : Bool} {v : Literal}

theorem joined_finished {exponent : Int}
    (h : finished whole fraction exponent real s = some (v, rest)) : Joined s rest := by
  by_cases hs : s.head?.any isImaginaryMark
  · obtain ⟨c, hc, hmark⟩ := (Option.any_eq_true _ _).mp hs
    obtain ⟨after, rfl⟩ := List.head?_eq_some_iff.mp hc
    rw [finished_imaginary hmark] at h
    refine (joined_ended h).cons ?_
    rcases Bool.or_eq_true_iff.mp hmark with hc | hc <;> cases of_decide_eq_true hc <;> rfl
  · rw [Bool.not_eq_true] at hs
    rw [finished_real hs] at h
    obtain ⟨value, -, hended⟩ := Option.bind_eq_some_iff.mp h
    exact joined_ended hended

theorem joined_signed (s : List Char) : Joined s (signed s).2.2 := by
  unfold signed
  split
  · exact (Joined.refl _).cons rfl
  · exact (Joined.refl _).cons rfl
  · exact .refl s

theorem joined_withExponent (h : withExponent whole fraction real s = some (v, rest)) :
    Joined s rest := by
  cases s with
  | nil => exact joined_finished (show finished whole fraction 0 real [] = some (v, rest) from h)
  | cons e after =>
    rw [withExponent_cons] at h
    split at h
    · rename_i hmark
      have he : isNumberChar e := by
        rcases Bool.or_eq_true_iff.mp hmark with hc | hc <;> cases of_decide_eq_true hc <;> rfl
      split at h
      · split at h
        · cases h
        · rename_i digits more hgroups
          exact ((joined_signed after).trans ((joined_groups (fun _ => isNumberChar_of_isDigit)
            hgroups).trans (joined_finished h))).cons he
      · split at h
        · cases h
        · exact joined_finished h
    · exact joined_finished h

theorem joined_fractional (h : fractional whole s = some (v, rest)) : Joined s rest := by
  unfold fractional at h
  split at h
  · split at h
    · cases h
    · rename_i fraction more hgroups
      exact (joined_groups (fun _ => isNumberChar_of_isDigit) hgroups).trans (joined_withExponent h)
  · exact joined_withExponent h

theorem joined_decimal (h : decimal s = some (v, rest)) : Joined s rest := by
  cases hgroups : groups Char.isDigit s with
  | none =>
    rw [decimal, hgroups] at h
    cases h
  | some r =>
    obtain ⟨whole, more⟩ := r
    refine (joined_groups (fun _ => isNumberChar_of_isDigit) hgroups).trans ?_
    by_cases hpoint : more.head? = some '.'
    · obtain ⟨after, rfl⟩ := List.head?_eq_some_iff.mp hpoint
      rw [decimal_point hgroups] at h
      exact (joined_fractional h).cons rfl
    · rw [decimal_whole hgroups hpoint] at h
      exact joined_withExponent h

end

/-- A number is read over letters, digits, underscores, points and signs only. -/
theorem joined_read? {s rest : List Char} {v : Literal} (h : read? s = some (v, rest)) :
    Joined s rest := by
  unfold read? at h
  split at h
  · rename_i c after
    have hletter {d : Char} (hd : c.toLower = d) (hlower : d.isLower) : isNumberChar c := by
      have hc := Text.isAsciiLetter_of_lower (hd ▸ hlower)
      simp [isNumberChar, Text.isAsciiWord, hc]
    have hzero (hc : isNumberChar c) {t : List Char} (h : Joined after t) :
        Joined ('0' :: c :: after) t := (h.cons hc).cons rfl
    split at h
    · rename_i hx
      exact hzero (hletter hx (by decide)) (joined_based (by decide) h)
    · rename_i ho
      exact hzero (hletter ho (by decide)) (joined_based (by decide) h)
    · rename_i hb
      exact hzero (hletter hb (by decide)) (joined_based (by decide) h)
    · exact joined_decimal h
  · rename_i after
    split at h
    · cases h
    · rename_i fraction more hgroups
      exact ((joined_groups (fun _ => isNumberChar_of_isDigit) hgroups).trans
        (joined_withExponent h)).cons rfl
  · exact joined_decimal h

end Numeral

end Stencil.Expr
