import GrammarModule.Proofs.Json.Located
import GrammarModule.Proofs.Json.Skip

/-!
# GrammarModule.Proofs.Json.Located.Skip

Numbers and skipped values track the text. Of the skipper it is enough that each step does
(`step_tracks`), whatever the text still owes: the steps follow one another.
-/

namespace GrammarModule
namespace Json

/-! ## Numbers that are read -/

theorem scaledNumber_tracks (negative : Bool) (significand : Nat) (exponent : Int) (c : Cursor) :
    Tracks Prod.snd c (scaledNumber negative significand exponent c) := by
  rw [scaledNumber]
  split
  · exact .of_ok (.refl c)
  · exact .failHere c _

theorem Cursor.reaches_sign (c : Cursor) :
    c.Reaches (if c.rest.head? = some '-' ∨ c.rest.head? = some '+' then c.advance else c) := by
  split
  · exact c.reaches_advance
  · exact .refl c

theorem readExponent_tracks (negative : Bool) (significand : Nat) (exponent : Int) (c : Cursor) :
    Tracks Prod.snd c (readExponent negative significand exponent c) := by
  refine .after (c.reaches_advance.trans c.advance.reaches_sign) ?_
  rw [readExponent]
  simp only
  generalize (if c.advance.rest.head? = some '-' ∨ c.advance.rest.head? = some '+'
    then c.advance.advance else c.advance) = d
  split
  · exact .failNext d _
  · split
    · split
      · exact .after (d.reaches_drop _) (.failHere _ _)
      · exact .of_ok d.reaches_skipDigits
    · exact .after d.reaches_skipDigits (scaledNumber_tracks _ _ _ _)

theorem readFraction_tracks (negative : Bool) (significand : Nat) (exponent : Int) (c : Cursor) :
    Tracks Prod.snd c (readFraction negative significand exponent c) := by
  refine .after c.reaches_advance ?_
  rw [readFraction]
  generalize c.advance = d
  simp only
  split
  · exact .failNext d _
  · refine .after d.reaches_skipDigits ?_
    split
    · exact readExponent_tracks _ _ _ _
    · exact scaledNumber_tracks _ _ _ _

theorem readNumber_tracks (negative : Bool) (c : Cursor) :
    Tracks Prod.snd c (readNumber negative c) := by
  rw [readNumber]
  split
  · exact .failNext c _
  · split
    · exact .after c.reaches_advance (.failNext _ _)
    · simp only
      refine .after c.reaches_skipDigits ?_
      generalize c.skipDigits = d
      split
      · exact readFraction_tracks _ _ _ d
      · split
        · exact readExponent_tracks _ _ _ d
        · split
          · exact .of_ok (.refl d)
          · exact scaledNumber_tracks _ _ _ d

/-! ## Numbers that are skipped -/

theorem skipExponent_tracks (c : Cursor) : Tracks id c (skipExponent c) := by
  refine .after (c.reaches_advance.trans c.advance.reaches_sign) ?_
  rw [skipExponent]
  generalize (if c.advance.rest.head? = some '-' ∨ c.advance.rest.head? = some '+'
    then c.advance.advance else c.advance) = d
  split
  · exact .failNext d _
  · exact .of_ok d.reaches_skipDigits

theorem skipNumber_tracks (c : Cursor) : Tracks id c (skipNumber c) := by
  rw [skipNumber]
  split
  · exact .failNext c _
  · split
    · exact .after c.reaches_advance (.failNext _ _)
    · refine .after c.reaches_skipDigits ?_
      generalize c.skipDigits = d
      simp only
      split
      · refine .after d.reaches_advance ?_
        generalize d.advance = e
        split
        · exact .failNext e _
        · refine .after e.reaches_skipDigits ?_
          split
          · exact skipExponent_tracks _
          · exact .of_ok (.refl _)
      · split
        · exact skipExponent_tracks d
        · exact .of_ok (.refl d)

/-! ## Skipped values -/

theorem skipStart_tracks (around : List Frame) (c : Cursor) :
    Tracks Prod.snd c (skipStart around c) := by
  refine .after c.reaches_skipBlank ?_
  rw [skipStart]
  generalize c.skipBlank = d
  have hwhole : ∀ {e : Cursor} {rest : Except Error Cursor}, d.Reaches e → Tracks id e rest →
      Tracks Prod.snd d (rest >>= fun e' => .ok (Pending.done around, e')) := fun he hrest =>
    .after he (hrest.map fun _ => rfl)
  simp only
  split
  · exact .failNext d _
  · exact hwhole d.reaches_advance (expectWord_tracks _ _)
  · exact hwhole d.reaches_advance (expectWord_tracks _ _)
  · exact hwhole d.reaches_advance (expectWord_tracks _ _)
  · exact hwhole d.reaches_advance (skipText_tracks _)
  · exact hwhole d.reaches_advance (skipNumber_tracks _)
  · exact .of_ok d.reaches_advance
  · exact .of_ok d.reaches_advance
  · split
    · exact hwhole (.refl d) (skipNumber_tracks d)
    · exact .failNext d _

theorem skipKey_tracks (c : Cursor) : Tracks id c (skipKey c) := by
  refine .after c.reaches_skipBlank ?_
  rw [skipKey]
  generalize c.skipBlank = d
  split
  · exact .failNext d _
  · exact .after d.reaches_advance ((skipText_tracks _).bind expectColon_tracks)
  · exact .failNext d _

theorem skipFirst_tracks (frame : Frame) (around : List Frame) (c : Cursor) :
    Tracks Prod.snd c (skipFirst frame around c) := by
  refine .after c.reaches_skipBlank ?_
  rw [skipFirst.eq_def]
  generalize c.skipBlank = d
  simp only
  split
  · exact .failNext d _
  · split
    · exact .of_ok d.reaches_advance
    · cases frame with
      | list => exact skipStart_tracks _ d
      | object => exact (skipKey_tracks d).map fun _ => rfl

theorem skipNext_tracks (frame : Frame) (around : List Frame) (c : Cursor) :
    Tracks Prod.snd c (skipNext frame around c) := by
  refine .after c.reaches_skipBlank ?_
  rw [skipNext.eq_def]
  generalize c.skipBlank = d
  simp only
  split
  · exact .failNext d _
  · split
    · exact .of_ok d.reaches_advance
    · split
      · cases frame with
        | list => exact .of_ok d.reaches_advance
        | object => exact .after d.reaches_advance ((skipKey_tracks _).map fun _ => rfl)
      · exact .failNext d _

theorem step_tracks (pending : Pending) (c : Cursor) : Tracks Prod.snd c (pending.step c) := by
  cases pending with
  | value around => exact skipStart_tracks around c
  | opened frame around => exact skipFirst_tracks frame around c
  | done around =>
    cases around with
    | nil => exact .of_ok (.refl c)
    | cons frame around => exact skipNext_tracks frame around c

theorem skipPending_tracks (bound : List Char) (pending : Pending) (c : Cursor) :
    Tracks id c (skipPending bound pending c) := by
  induction bound generalizing pending c with
  | nil =>
    -- nothing is passed, and what is refused is refused where the cursor stands
    cases pending with
    | value around => rw [skipPending]; exact .failNext c _
    | opened frame around => rw [skipPending]; exact .failNext c _
    | done around =>
      cases around with
      | nil => rw [skipPending_done]; exact .of_ok (.refl c)
      | cons frame around => rw [skipPending]; exact .failNext c _
  | cons x bound ih =>
    by_cases hdone : pending = .done []
    · rw [hdone, skipPending_done]
      exact .of_ok (.refl c)
    · rw [skipPending_cons hdone]
      exact (step_tracks pending c).bind fun r => ih r.1 r.2

theorem skipValue_tracks (c : Cursor) : Tracks id c (skipValue c) :=
  skipPending_tracks c.rest _ c

end Json
end GrammarModule
