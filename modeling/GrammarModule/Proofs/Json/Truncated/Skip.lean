import GrammarModule.Proofs.Json.Skip
import GrammarModule.Proofs.Json.Truncated

/-!
# GrammarModule.Proofs.Json.Truncated.Skip

Values that are skipped, up to a cut. A number may be torn by the cut: what is left of it is a
shorter number, or no number at all. `TornNumber P q s` says that the cut between `q` and `s` tears
one, and that any value could stand in its place. Everywhere else the skipper does up to the cut
what it does on the whole text, or refuses the text as cut short; a shorter number ends where the
text does, so that whoever reads on refuses it (`step_cut`, `skipValue_cut`).
-/

namespace GrammarModule
namespace Json

/-! ## Numbers -/

namespace Cursor

theorem digits_append_rest (c : Cursor) : c.digits ++ c.skipDigits.rest = c.rest := by
  rw [rest_skipDigits]
  exact List.takeWhile_append_dropWhile

/-- The digits end before the cut, or the text up to the cut ends in digits, or it has ended. -/
theorem digits_extend (c : Cursor) (s : List Char) (h : (c.extend s).digits.isEmpty = false) :
    (c.digits.isEmpty = false ∧ c.skipDigits.rest ≠ [] ∧ (c.extend s).digits = c.digits ∧
        (c.extend s).skipDigits = c.skipDigits.extend s) ∨
      (c.digits.isEmpty = false ∧ c.skipDigits.rest = [] ∧
        ∃ ds, (c.extend s).digits = c.digits ++ ds) ∨
      (c.rest = [] ∧ (c.extend s).skipDigits.rest.length < s.length) := by
  have hsplit := c.digits_append_rest
  cases hrest : c.skipDigits.rest with
  | cons x r =>
    have hend : ∀ y ∈ (c.skipDigits.extend s).rest.head?, isDigit y = false := by
      intro y hy
      have hnot := List.head?_dropWhile_not isDigit c.rest
      rw [← rest_skipDigits, hrest] at hnot
      rw [rest_extend, hrest] at hy
      cases hy
      simpa using hnot
    have hp : (c.extend s).Past c.digits (c.skipDigits.extend s) :=
      past_extend_iff.2 c.past_skipDigits
    have hdigits : (c.extend s).digits = c.digits :=
      hp.takeWhile_eq (fun y hy => List.all_eq_true.1 List.all_takeWhile y hy) hend
    refine .inl ⟨by rw [← hdigits, h], by simp, hdigits, ?_⟩
    rw [skipDigits, hdigits]
    exact hp.drop_eq
  | nil =>
    rw [hrest, List.append_nil] at hsplit
    cases hc : c.rest with
    | nil =>
      refine .inr (.inr ⟨rfl, ?_⟩)
      have hlen := congrArg List.length (c.extend s).digits_append_rest
      have hpos : 0 < (c.extend s).digits.length := by
        rw [List.length_pos_iff]
        simpa using h
      rw [List.length_append, rest_extend, hc, List.nil_append] at hlen
      omega
    | cons x r =>
      refine .inr (.inl ⟨by simp [hsplit, hc], rfl, s.takeWhile isDigit, ?_⟩)
      rw [digits, rest_extend, List.takeWhile_append_of_pos, hsplit]
      intro y hy
      rw [← hsplit] at hy
      exact List.all_eq_true.1 List.all_takeWhile y hy

end Cursor

/-- The same place in the text that goes on, or the end of the text up to the cut. -/
def Stops (s : List Char) (c d : Cursor) : Prop := d = c.extend s ∨ c.rest = []

/-- The run on the whole text goes beyond the cut. -/
def Beyond (s : List Char) (d : Cursor) : Prop := d.rest.length < s.length

theorem length_skipDigits {c : Cursor} (h : c.digits.isEmpty = false) :
    c.skipDigits.rest.length < c.rest.length := by
  have hlen := congrArg List.length c.digits_append_rest
  have hpos : 0 < c.digits.length := by
    rw [List.length_pos_iff]
    simpa using h
  rw [List.length_append] at hlen
  omega

theorem Cursor.digits_of_rest {c : Cursor} (h : c.rest = []) : c.digits = [] := by
  simp [Cursor.digits, h]

/-- Past the digits that have to stand next. -/
def someDigits (c : Cursor) : Except Error Cursor :=
  if c.digits.isEmpty then c.failNext .invalidNumber else .ok c.skipDigits

theorem someDigits_eq_ok_iff {c d : Cursor} :
    someDigits c = .ok d ↔ c.digits.isEmpty = false ∧ d = c.skipDigits := by
  rw [someDigits]
  split
  · next h => simp [h, Cursor.failNext]
  · next h => simp [h, eq_comm]

theorem someDigits_cut (c : Cursor) (s : List Char) :
    Cut (Stops s) (Beyond s) (someDigits c) (someDigits (c.extend s)) := by
  intro d hd
  obtain ⟨hsome, rfl⟩ := someDigits_eq_ok_iff.1 hd
  rcases c.digits_extend s hsome with ⟨h, -, -, hskip⟩ | ⟨h, hend, -⟩ | ⟨h, hlt⟩
  · exact .inl ⟨_, someDigits_eq_ok_iff.2 ⟨h, rfl⟩, .inl hskip⟩
  · exact .inl ⟨_, someDigits_eq_ok_iff.2 ⟨h, rfl⟩, .inr hend⟩
  · refine .inr ⟨⟨.invalidNumber, c.nextPosition⟩, ?_, .inr hlt⟩
    rw [someDigits, Cursor.digits_of_rest h]
    rfl

/-- Past a sign if one stands next. -/
def skipSign (c : Cursor) : Cursor :=
  if c.rest.head? = some '-' ∨ c.rest.head? = some '+' then c.advance else c

theorem skipExponent_eq (c : Cursor) : skipExponent c = someDigits (skipSign c.advance) := rfl

theorem Cursor.length_advance (c : Cursor) : c.advance.rest.length ≤ c.rest.length := by
  cases hr : c.rest with
  | nil => simp [advance, hr]
  | cons x r => simp [advance, hr]

theorem length_skipSign (c : Cursor) : (skipSign c).rest.length ≤ c.rest.length := by
  rw [skipSign]
  split
  · exact c.length_advance
  · exact Nat.le_refl _

theorem skipExponent_cut {c : Cursor} {x : Char} {r : List Char} (hx : c.rest = x :: r)
    (s : List Char) : Cut (Stops s) (Beyond s) (skipExponent c) (skipExponent (c.extend s)) := by
  rw [skipExponent_eq, skipExponent_eq, Cursor.advance_extend hx]
  cases hr : c.advance.rest with
  | nil =>
    -- the mark is the last character before the cut, and the digits come after it
    intro d hd
    obtain ⟨hsome, rfl⟩ := someDigits_eq_ok_iff.1 hd
    have hlt := length_skipDigits hsome
    have hle := length_skipSign (c.advance.extend s)
    rw [Cursor.rest_extend, hr, List.nil_append] at hle
    refine .inr ⟨⟨.invalidNumber, (skipSign c.advance).nextPosition⟩, ?_, .inr ?_⟩
    · have hsign : skipSign c.advance = c.advance := by simp [skipSign, hr]
      rw [hsign, someDigits, Cursor.digits_of_rest hr]
      rfl
    · exact Nat.lt_of_lt_of_le hlt hle
  | cons y r' =>
    have hsign : skipSign (c.advance.extend s) = (skipSign c.advance).extend s := by
      simp only [skipSign, Cursor.rest_extend, hr, List.cons_append, List.head?_cons]
      split
      · exact Cursor.advance_extend hr s
      · rfl
    rw [hsign]
    exact someDigits_cut _ s

theorem skipAnyExponent_cut {s : List Char} {c d : Cursor} (h : Stops s c d) :
    Cut (Stops s) (Beyond s) (skipAnyExponent c) (skipAnyExponent d) := by
  cases hr : c.rest with
  | nil =>
    have hrun : skipAnyExponent c = .ok c := by simp [skipAnyExponent, isExponentMark, hr]
    exact fun _ _ => .inl ⟨c, hrun, .inr hr⟩
  | cons x r =>
    obtain rfl : d = c.extend s := h.resolve_right (by simp [hr])
    simp only [skipAnyExponent, isExponentMark, Cursor.rest_extend, hr, List.cons_append,
      List.head?_cons]
    split
    · exact skipExponent_cut hr s
    · exact .ok (.inl rfl)

theorem skipAnyExponent_beyond {s : List Char} {c d : Cursor} (h : skipAnyExponent c = .ok d)
    (hc : Beyond s c) : Beyond s d := by
  obtain ⟨t, -, hp⟩ := skipAnyExponent_sound h
  have := hp.length_rest
  have hlt : c.rest.length < s.length := hc
  change d.rest.length < s.length
  omega

/-- Past a fraction and an exponent, as far as they stand next. -/
def skipTail (c : Cursor) : Except Error Cursor :=
  if c.rest.head? = some '.' then do skipAnyExponent (← someDigits c.advance)
  else skipAnyExponent c

theorem skipTail_cut {s : List Char} {c d : Cursor} (h : Stops s c d) :
    Cut (Stops s) (Beyond s) (skipTail c) (skipTail d) := by
  cases hr : c.rest with
  | nil =>
    have hrun : skipTail c = .ok c := by
      simp [skipTail, skipAnyExponent, isExponentMark, hr]
    exact fun _ _ => .inl ⟨c, hrun, .inr hr⟩
  | cons x r =>
    obtain rfl : d = c.extend s := h.resolve_right (by simp [hr])
    simp only [skipTail, Cursor.rest_extend, hr, List.cons_append, List.head?_cons,
      Cursor.advance_extend hr]
    split
    · refine (someDigits_cut _ s).bind (fun a b _ _ hab => skipAnyExponent_cut hab) ?_
      exact fun b e _ hb he => skipAnyExponent_beyond he hb
    · exact skipAnyExponent_cut (.inl rfl)

theorem skipTail_beyond {s : List Char} {c d : Cursor} (h : skipTail c = .ok d)
    (hc : Beyond s c) : Beyond s d := by
  rw [skipTail] at h
  split at h
  · obtain ⟨e, he, h⟩ := bind_eq_ok_iff.1 h
    obtain ⟨hsome, rfl⟩ := someDigits_eq_ok_iff.1 he
    refine skipAnyExponent_beyond h ?_
    have hlt := length_skipDigits hsome
    have hle := c.length_advance
    have hlen : c.rest.length < s.length := hc
    change c.advance.skipDigits.rest.length < s.length
    omega
  · exact skipAnyExponent_beyond h hc

theorem skipNumber_eq_tail (c : Cursor) : skipNumber c =
    if c.digits.isEmpty then c.failNext .invalidNumber
    else if c.digits.head? = some '0' ∧ 1 < c.digits.length then
      c.advance.failNext .invalidNumber
    else skipTail c.skipDigits := by
  have hdot : ∀ e : Cursor, (someDigits e >>= skipAnyExponent) =
      if e.digits.isEmpty then e.failNext .invalidNumber else skipAnyExponent e.skipDigits := by
    intro e
    rw [someDigits]
    split <;> rfl
  rw [skipNumber_eq, skipTail, hdot]

/-- A number that is torn is refused, or the part before the cut is passed as a number. -/
theorem skipNumber_cut (c : Cursor) (s : List Char) :
    Cut (Stops s) (Beyond s) (skipNumber c) (skipNumber (c.extend s)) := by
  rw [skipNumber_eq_tail (c.extend s)]
  by_cases hsome : (c.extend s).digits.isEmpty = true
  · rw [if_pos hsome]
    exact .refused
  by_cases hzero : (c.extend s).digits.head? = some '0' ∧ 1 < (c.extend s).digits.length
  · rw [if_neg hsome, if_pos hzero]
    exact .refused
  rw [if_neg hsome, if_neg hzero, skipNumber_eq_tail]
  rcases c.digits_extend s (Bool.eq_false_iff.2 hsome) with ⟨h, -, hdigits, hskip⟩ |
    ⟨h, hend, ds, hdigits⟩ | ⟨h, hlt⟩
  · rw [hdigits] at hzero
    rw [if_neg (Bool.eq_false_iff.1 h), if_neg hzero]
    exact skipTail_cut (.inl hskip)
  · -- a zero that leads other digits before the cut leads them in the whole text too
    have hzero' : ¬(c.digits.head? = some '0' ∧ 1 < c.digits.length) := by
      rintro ⟨h0, hlen⟩
      rw [hdigits] at hzero
      refine hzero ⟨by rw [List.head?_append, h0]; rfl, ?_⟩
      rw [List.length_append]
      omega
    rw [if_neg (Bool.eq_false_iff.1 h), if_neg hzero']
    exact skipTail_cut (.inr hend)
  · intro d hd
    refine .inr ⟨⟨.invalidNumber, c.nextPosition⟩, ?_, .inr (skipTail_beyond hd hlt)⟩
    rw [Cursor.digits_of_rest h]
    rfl

/-! ## Numbers that are torn -/

/-- A number, after a minus sign if it has one. -/
def IsNumber (t : List Char) : Prop := IsUnsigned t ∨ ∃ r, IsUnsigned r ∧ t = '-' :: r

/-- The cut between `q` and `s` tears a number in a text of `P`, in a place where any value could
stand. -/
def TornNumber (P : List Char → Prop) (q s : List Char) : Prop :=
  ∃ u n m w, q = u ++ n ∧ s = m ++ w ∧ n ≠ [] ∧ m ≠ [] ∧ IsNumber (n ++ m) ∧
    ∀ v, IsValue v → P (u ++ (v ++ w))

/-- A text in the midst of another one. -/
theorem TornNumber.within {P Q : List Char → Prop} {q s x y : List Char} (h : TornNumber P q s)
    (hxy : ∀ t, P t → Q (x ++ (t ++ y))) : TornNumber Q (x ++ q) (s ++ y) := by
  obtain ⟨u, n, m, w, rfl, rfl, hn, hm, hnumber, hfree⟩ := h
  refine ⟨x ++ u, n, m, w ++ y, by simp, by simp, hn, hm, hnumber, fun v hv => ?_⟩
  simpa using hxy _ (hfree v hv)

/-! ## Steps -/

/-- A step on the whole text goes past a number that the cut tears. -/
def TornStep (pending : Pending) (c : Cursor) (s : List Char) (r : Pending × Cursor) : Prop :=
  ∃ u n m, c.rest = u ++ n ∧ s = m ++ r.2.rest ∧ n ≠ [] ∧ m ≠ [] ∧ IsNumber (n ++ m) ∧
    ∀ v t, IsValue v → Owes r.1 t → Owes pending (u ++ (v ++ t))

/-- The same step, or one past a number with which the text up to the cut ends. -/
def StepsAlike (s : List Char) (a b : Pending × Cursor) : Prop :=
  ExtendsAt s a b ∨ (∃ around, a.1 = .done around) ∧ a.2.rest = []

/-- Where more is passed than stands before the cut, the rest of it stands after the cut. -/
theorem Cursor.Past.exists_beyond {c d : Cursor} {s t : List Char} (h : (c.extend s).Past t d)
    (hd : Beyond s d) : ∃ m, m ≠ [] ∧ t = c.rest ++ m ∧ s = m ++ d.rest := by
  have hr := h.rest
  have hlt : d.rest.length < s.length := hd
  rcases List.append_eq_append_iff.1 hr with ⟨m, ht, hs⟩ | ⟨m, -, hs⟩
  · refine ⟨m, ?_, ht, hs⟩
    rintro rfl
    rw [hs] at hlt
    simp at hlt
  · rw [hs, List.length_append] at hlt
    omega

/-- A number that stands next after blanks and perhaps a sign. -/
theorem skipStart_number_cut {around : List Frame} {c e : Cursor} {b sign : List Char}
    (hb : Blanks b) (hp : c.Past (b ++ sign) e) (hne : sign ++ e.rest ≠ [])
    (hsign : ∀ t, IsUnsigned t → IsNumber (sign ++ t)) (s : List Char) :
    Cut (StepsAlike s) (TornStep (.value around) c s)
      (do .ok (.done around, ← skipNumber e))
      (do .ok (.done around, ← skipNumber (e.extend s))) := by
  refine (skipNumber_cut e s).bind ?_ ?_
  · rintro d f - - (rfl | hd)
    · exact .ok (.inl rfl)
    · exact .ok (.inr ⟨⟨around, rfl⟩, hd⟩)
  · rintro f r hf hbeyond hr
    cases hr
    obtain ⟨t, ht, hpt⟩ := skipNumber_sound hf
    obtain ⟨m, hm, rfl, hs⟩ := hpt.exists_beyond hbeyond
    refine ⟨b, sign ++ e.rest, m, ?_, hs, hne, hm, ?_, fun v t hv hrest => ?_⟩
    · rw [hp.rest, List.append_assoc]
    · rw [List.append_assoc]
      exact hsign _ ht
    · exact ⟨b, v, t, hb, hv, hrest, rfl⟩

theorem skipStart_cut (around : List Frame) (c : Cursor) (s : List Char) :
    Cut (StepsAlike s) (TornStep (.value around) c s) (skipStart around c)
      (skipStart around (c.extend s)) := by
  rcases c.skipBlank_extend s with hr | ⟨x, r, hr, hskip, hadv⟩
  · simp only [skipStart, hr]
    exact .short (cutShort_failNext rfl)
  obtain ⟨b, hb, hp⟩ := c.exists_past_skipBlank
  have hpx := hp.trans (Cursor.past_advance hr)
  -- words and strings are not torn
  have hwhole : ∀ {run whole : Except Error Cursor}, Cut (Extends s) Whole run whole →
      Cut (StepsAlike s) (TornStep (.value around) c s)
        (do .ok (.done around, ← run)) (do .ok (.done around, ← whole)) := by
    intro run whole h
    refine h.bind_whole ?_
    rintro d _ - - rfl
    exact .ok (.inl rfl)
  simp only [skipStart, hskip, hr, Cursor.rest_extend, List.cons_append]
  by_cases hn : x = 'n'
  · subst hn
    simp only [hadv]
    exact hwhole (expectWord_cut _ s _)
  by_cases ht : x = 't'
  · subst ht
    simp only [hadv]
    exact hwhole (expectWord_cut _ s _)
  by_cases hf : x = 'f'
  · subst hf
    simp only [hadv]
    exact hwhole (expectWord_cut _ s _)
  by_cases hquote : x = '"'
  · subst hquote
    simp only [hadv]
    exact hwhole (skipText_cut _ s)
  by_cases hminus : x = '-'
  · subst hminus
    simp only [hadv]
    exact skipStart_number_cut hb hpx (by simp) (fun t ht => .inr ⟨t, ht, rfl⟩) s
  by_cases hlist : x = '['
  · subst hlist
    simp only [hadv]
    exact .ok (.inl rfl)
  by_cases hobject : x = '\x7b'
  · subst hobject
    simp only [hadv]
    exact .ok (.inl rfl)
  · simp only
    split
    · rw [← List.append_nil b] at hp
      exact skipStart_number_cut hb hp (by simp [hr]) (fun t ht => .inl ht) s
    · exact .refused

theorem skipKey_cut (c : Cursor) (s : List Char) :
    Cut (Extends s) Whole (skipKey c) (skipKey (c.extend s)) := by
  rcases c.skipBlank_extend s with hr | ⟨x, r, hr, hskip, hadv⟩
  · simp only [skipKey, hr]
    exact .short (cutShort_failNext rfl)
  simp only [skipKey, hskip, hr, Cursor.rest_extend, List.cons_append]
  by_cases hquote : x = '"'
  · subst hquote
    simp only [hadv]
    refine (skipText_cut _ s).bind_whole ?_
    rintro d _ - - rfl
    exact expectColon_cut d s
  · simp only [hquote, List.cons.injEq, false_and, imp_self, implies_true]
    exact .refused

/-- A key is passed, and then a value is owed. -/
theorem skipKey_step_cut {frame : Frame} {around : List Frame} {pending : Pending}
    {c e : Cursor} (s : List Char) :
    Cut (StepsAlike s) (TornStep pending c s)
      (do .ok (.value (frame :: around), ← skipKey e))
      (do .ok (.value (frame :: around), ← skipKey (e.extend s))) := by
  refine (skipKey_cut e s).bind_whole ?_
  rintro d _ - - rfl
  exact .ok (.inl rfl)

theorem Frame.endCause_category (frame : Frame) : frame.endCause.category = .cutShort := by
  cases frame <;> rfl

/-- A first item is owed where a list was just opened. -/
theorem Owes.first_item {around : List Frame} {b t : List Char} (hb : Blanks b)
    (h : Owes (.value (.list :: around)) t) : Owes (.opened .list around) (b ++ t) := by
  obtain ⟨b', v, _, hb', hv, ⟨texts, r, rest, hr, hi, hrest, rfl⟩, rfl⟩ := h
  exact ⟨v :: texts, (b ++ b') ++ (v ++ r), rest, .item (.first (hb.append hb')) hr,
    List.forall_mem_cons.2 ⟨hv, hi⟩, hrest, by simp⟩

theorem skipFirst_cut (frame : Frame) (around : List Frame) (c : Cursor) (s : List Char) :
    Cut (StepsAlike s) (TornStep (.opened frame around) c s) (skipFirst frame around c)
      (skipFirst frame around (c.extend s)) := by
  rcases c.skipBlank_extend s with hr | ⟨x, r, hr, hskip, hadv⟩
  · simp only [skipFirst, hr]
    exact .short (cutShort_failNext frame.endCause_category)
  obtain ⟨b, hb, hp⟩ := c.exists_past_skipBlank
  simp only [skipFirst, hskip, hr, Cursor.rest_extend, List.cons_append, hadv]
  split
  · exact .ok (.inl rfl)
  · cases frame with
    | object => exact skipKey_step_cut s
    | list =>
      refine (skipStart_cut (.list :: around) c.skipBlank s).mono (fun _ _ _ h => h) ?_
      rintro e - ⟨u, n, m, hq, hs, hn, hm, hnumber, hfree⟩
      refine ⟨b ++ u, n, m, ?_, hs, hn, hm, hnumber, fun v t hv ht => ?_⟩
      · rw [hp.rest, hq, List.append_assoc]
      · rw [List.append_assoc]
        exact (hfree v t hv ht).first_item hb

theorem skipNext_cut (frame : Frame) (around : List Frame) (c : Cursor) (s : List Char) :
    Cut (StepsAlike s) (TornStep (.done (frame :: around)) c s) (skipNext frame around c)
      (skipNext frame around (c.extend s)) := by
  rcases c.skipBlank_extend s with hr | ⟨x, r, hr, hskip, hadv⟩
  · simp only [skipNext, hr]
    exact .short (cutShort_failNext frame.endCause_category)
  simp only [skipNext, hskip, hr, Cursor.rest_extend, List.cons_append, hadv]
  split
  · exact .ok (.inl rfl)
  · split
    · cases frame with
      | object => exact skipKey_step_cut s
      | list => exact .ok (.inl rfl)
    · exact .refused

theorem step_cut (pending : Pending) (c : Cursor) (s : List Char) :
    Cut (StepsAlike s) (TornStep pending c s) (pending.step c) (pending.step (c.extend s)) := by
  cases pending with
  | value around => exact skipStart_cut around c s
  | opened frame around => exact skipFirst_cut frame around c s
  | done around =>
    cases around with
    | nil => exact .ok (.inl rfl)
    | cons frame around => exact skipNext_cut frame around c s

/-! ## Whole values -/

theorem Cursor.Past.text_unique {c d : Cursor} {t u : List Char} (h : c.Past t d)
    (h' : c.Past u d) : t = u :=
  List.append_cancel_right (h.rest.symm.trans h'.rest)

/-- What is torn after a step is torn in what was owed before it. -/
theorem TornNumber.of_step {pending next : Pending} {c e : Cursor} {s : List Char}
    (h : TornNumber (Owes next) e.rest s) (hstep : pending.step c = .ok (next, e)) :
    TornNumber (Owes pending) c.rest s := by
  obtain ⟨u, n, m, w, hq, rfl, hn, hm, hnumber, hfree⟩ := h
  obtain ⟨x, hx, -⟩ := step_sound hstep (hfree ['n', 'u', 'l', 'l'] (.word (by decide)))
  refine ⟨x ++ u, n, m, w, ?_, rfl, hn, hm, hnumber, fun v hv => ?_⟩
  · rw [hx.rest, hq, List.append_assoc]
  · obtain ⟨y, hy, howes⟩ := step_sound hstep (hfree v hv)
    rw [hx.text_unique hy, List.append_assoc]
    exact howes

theorem skipPending_short {pending : Pending} (h : pending ≠ .done []) (c : Cursor) :
    CutShort (skipPending [] pending c) := by
  cases pending with
  | value around => exact cutShort_failNext rfl
  | opened frame around => exact cutShort_failNext frame.endCause_category
  | done around =>
    cases around with
    | nil => exact absurd rfl h
    | cons frame around => exact cutShort_failNext frame.endCause_category

/-- After a value with which the text ends, the lists and objects around it cannot end any more. -/
theorem skipPending_at_end {c : Cursor} (hc : c.rest = []) (bound : List Char)
    (around : List Frame) :
    skipPending bound (.done around) c = .ok c ∨ CutShort (skipPending bound (.done around) c) := by
  cases around with
  | nil => exact .inl (skipPending_done bound c)
  | cons frame around =>
    right
    cases bound with
    | nil => exact skipPending_short (by simp) c
    | cons x bound =>
      have hr : c.skipBlank.rest = [] := by simp [Cursor.rest_skipBlank, hc]
      refine ⟨⟨frame.endCause, c.skipBlank.nextPosition⟩, ?_, frame.endCause_category⟩
      simp only [skipPending, skipNext, hr]
      rfl

/-- What a run on the whole text goes past up to `d` has a number in it that the cut tears. -/
def Torn (P : List Char → Prop) (c : Cursor) (s : List Char) (d : Cursor) : Prop :=
  ∃ m, s = m ++ d.rest ∧ TornNumber P c.rest m

theorem skipPending_done_cut (s bound bound' : List Char) (c : Cursor) :
    Cut (Stops s) (Torn (Owes (.done [])) c s) (skipPending bound' (.done []) c)
      (skipPending bound (.done []) (c.extend s)) := by
  rw [skipPending_done, skipPending_done]
  exact .ok (.inl rfl)

/-- The bounds are those of the two runs, and what is pending is owed by both. -/
theorem skipPending_cut (s bound bound' : List Char) (pending : Pending) (c : Cursor) :
    Cut (Stops s) (Torn (Owes pending) c s) (skipPending bound' pending c)
      (skipPending bound pending (c.extend s)) := by
  induction bound generalizing bound' pending c with
  | nil =>
    by_cases hdone : pending = .done []
    · exact hdone ▸ skipPending_done_cut s [] bound' c
    · exact fun d hd => absurd hd (skipPending_nil hdone _ d)
  | cons x bound ih =>
    by_cases hdone : pending = .done []
    · exact hdone ▸ skipPending_done_cut s (x :: bound) bound' c
    cases bound' with
    | nil => exact .short (skipPending_short hdone c)
    | cons y bound' =>
      rw [skipPending_cons hdone, skipPending_cons hdone]
      refine (step_cut pending c s).bind ?_ ?_
      · rintro ⟨next, e⟩ ⟨next', e'⟩ - hrun hsame
        rcases hsame with hsame | ⟨⟨around, rfl⟩, hend⟩
        · -- the same step, after which the two runs go on alike
          cases hsame
          refine (ih bound' next e).mono (fun _ _ _ h => h) ?_
          rintro d - ⟨m, hm, htorn⟩
          exact ⟨m, hm, htorn.of_step hrun⟩
        · rcases skipPending_at_end hend bound' around with hok | hshort
          · exact fun _ _ => .inl ⟨e, hok, .inr hend⟩
          · exact .short hshort
      · rintro ⟨next, e⟩ d - ⟨u, n, m, hq, hs, hn, hm, hnumber, hfree⟩ hd
        obtain ⟨t, hpt, ht⟩ := skipPending_sound hd
        refine ⟨m ++ t, ?_, u, n, m, t, hq, rfl, hn, hm, hnumber, fun v hv => hfree v t hv ht⟩
        rw [hs, hpt.rest, List.append_assoc]

/-- A text of `R` with any blanks before it. -/
def Spaced (R : List Char → Prop) (t : List Char) : Prop :=
  ∃ b u, Blanks b ∧ R u ∧ t = b ++ u

theorem owes_value_iff {t : List Char} : Owes (.value []) t ↔ Spaced IsValue t := by
  constructor
  · rintro ⟨b, v, _, hb, hv, rfl, rfl⟩
    exact ⟨b, v, hb, hv, by rw [List.append_nil]⟩
  · rintro ⟨b, v, hb, hv, rfl⟩
    exact ⟨b, v, [], hb, hv, rfl, by rw [List.append_nil]⟩

/-- A value that is skipped up to a cut ends there too, or with the text up to the cut, or the cut
tears a number in it. -/
theorem skipValue_cut (c : Cursor) (s : List Char) :
    Cut (Stops s) (Torn (Spaced IsValue) c s) (skipValue c) (skipValue (c.extend s)) := by
  have h := skipPending_cut s (c.extend s).rest c.rest (.value []) c
  rwa [show Owes (.value []) = Spaced IsValue from funext fun _ => propext owes_value_iff] at h

end Json
end GrammarModule
