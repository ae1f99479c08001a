import GrammarModule.Json.Number
import GrammarModule.Proofs.Json.Past
import GrammarModule.Proofs.Text.Numeral

/-!
# GrammarModule.Proofs.Json.Number

Numbers that are skipped: the text that is passed is a number by its form (`skipNumber_sound`), and
every number is passed whole where what comes after it cannot belong to it
(`skipNumber_of_past`). Of the numbers that are read, the numerals of counts are read as these
counts (`readNumber_of_past`).
-/

namespace GrammarModule
namespace Json

namespace Cursor

/-- What stands next cannot continue a number. -/
def Ends (c : Cursor) : Prop :=
  ∀ x ∈ c.rest.head?, isDigit x = false ∧ x ≠ '.' ∧ x ≠ 'e' ∧ x ≠ 'E'

theorem isDigit_iff {x : Char} : isDigit x = true ↔ '0' ≤ x ∧ x ≤ '9' := by
  simp [isDigit]

theorem past_skipDigits (c : Cursor) : c.Past c.digits c.skipDigits :=
  c.past_takeWhile isDigit

theorem digits_of_ne_nil {c : Cursor} (h : ¬c.digits.isEmpty = true) : Digits c.digits := by
  refine ⟨by simpa using h, ?_⟩
  intro x hx
  exact isDigit_iff.1 (List.all_eq_true.1 List.all_takeWhile x hx)

theorem Past.digits_eq {c d : Cursor} {t : List Char} (h : c.Past t d) (ht : Digits t)
    (hd : ∀ x ∈ d.rest.head?, isDigit x = false) : c.digits = t ∧ c.skipDigits = d := by
  have hc : c.digits = t := h.takeWhile_eq (fun x hx => isDigit_iff.2 (ht.2 x hx)) hd
  refine ⟨hc, ?_⟩
  rw [skipDigits, hc]
  exact h.drop_eq

theorem Ends.not_digit {c : Cursor} (h : c.Ends) : ∀ x ∈ c.rest.head?, isDigit x = false :=
  fun x hx => (h x hx).1

theorem Ends.not_mark {c : Cursor} (h : c.Ends) : isExponentMark c = false := by
  cases hr : c.rest with
  | nil => simp [isExponentMark, hr]
  | cons x r =>
    obtain ⟨-, -, he, hE⟩ := h x (by simp [hr])
    simp [isExponentMark, hr, he, hE]

theorem Ends.not_point {c : Cursor} (h : c.Ends) : c.rest.head? ≠ some '.' := by
  intro hc
  exact (h _ hc).2.1 rfl

end Cursor

theorem Digits.head {t : List Char} (h : Digits t) :
    ∃ x r, t = x :: r ∧ '0' ≤ x ∧ x ≤ '9' := by
  cases t with
  | nil => exact absurd rfl h.1
  | cons x r => exact ⟨x, r, rfl, h.2 x (by simp)⟩

/-! ## Exponents -/

/-- The exponent, if one stands next. -/
def skipAnyExponent (c : Cursor) : Except Error Cursor :=
  if isExponentMark c then skipExponent c else .ok c

theorem skipAnyExponent_sound {c d : Cursor} (h : skipAnyExponent c = .ok d) :
    ∃ t, IsExponent t ∧ c.Past t d := by
  rw [skipAnyExponent] at h
  split at h
  · next hmark =>
    obtain ⟨mark, hm, hcm⟩ : ∃ mark ∈ ['e', 'E'], c.Past [mark] c.advance := by
      simp only [isExponentMark, Bool.or_eq_true, decide_eq_true_eq] at hmark
      rcases hmark with h | h
      · exact ⟨'e', by simp, Cursor.past_advance_iff.2 ⟨h, rfl⟩⟩
      · exact ⟨'E', by simp, Cursor.past_advance_iff.2 ⟨h, rfl⟩⟩
    simp only [skipExponent] at h
    -- the sign is passed if there is one
    obtain ⟨sign, hs, hps⟩ : ∃ sign ∈ [[], ['+'], ['-']], c.advance.Past sign
        (if c.advance.rest.head? = some '-' ∨ c.advance.rest.head? = some '+' then
          c.advance.advance else c.advance) := by
      split
      · next hsign =>
        rcases hsign with h | h
        · exact ⟨['-'], by simp, Cursor.past_advance_iff.2 ⟨h, rfl⟩⟩
        · exact ⟨['+'], by simp, Cursor.past_advance_iff.2 ⟨h, rfl⟩⟩
      · exact ⟨[], by simp, .refl _⟩
    generalize (if c.advance.rest.head? = some '-' ∨ c.advance.rest.head? = some '+' then
      c.advance.advance else c.advance) = e at h hps
    split at h
    · cases h
    · next hd =>
      cases h
      exact ⟨_, .inr ⟨mark, sign, _, hm, hs, Cursor.digits_of_ne_nil hd, rfl⟩,
        hcm.trans (hps.trans (Cursor.past_skipDigits _))⟩
  · cases h
    exact ⟨[], .inl rfl, .refl _⟩

theorem skipAnyExponent_of_past {c d : Cursor} {t : List Char} (ht : IsExponent t)
    (hp : c.Past t d) (hd : d.Ends) : skipAnyExponent c = .ok d := by
  rcases ht with rfl | ⟨mark, sign, ds, hm, hs, hds, rfl⟩
  · rw [Cursor.past_nil_iff.1 hp] at hd ⊢
    rw [skipAnyExponent, hd.not_mark]
    rfl
  · obtain ⟨e, he, hp'⟩ := Cursor.past_cons_iff.1 hp
    obtain ⟨f, hf, hfd⟩ := Cursor.past_append_iff.1 hp'
    obtain ⟨hdigits, hskip⟩ := hfd.digits_eq hds hd.not_digit
    have hmark : isExponentMark c = true := by
      have hc := he.rest
      simp only [List.mem_cons, List.not_mem_nil, or_false] at hm
      rcases hm with rfl | rfl <;> simp [isExponentMark, hc]
    have hsign : (if e.rest.head? = some '-' ∨ e.rest.head? = some '+' then e.advance else e) =
        f := by
      simp only [List.mem_cons, List.not_mem_nil, or_false] at hs
      rcases hs with rfl | rfl | rfl
      · rw [Cursor.past_nil_iff.1 hf] at hfd
        obtain ⟨x, r, rfl, hx0, hx9⟩ := hds.head
        rw [Cursor.past_nil_iff.1 hf, if_neg]
        rw [hfd.rest]
        rintro (h | h) <;> cases h
        · exact absurd hx0 (by decide)
        · exact absurd hx0 (by decide)
      · rw [if_pos (.inr (by rw [hf.rest]; rfl)), hf.advance_eq]
      · rw [if_pos (.inl (by rw [hf.rest]; rfl)), hf.advance_eq]
    simp only [skipAnyExponent, hmark, if_true, skipExponent, he.advance_eq, hsign, hdigits, hskip]
    rw [if_neg (by simpa using hds.1)]

/-! ## Whole numbers -/

theorem skipNumber_eq (c : Cursor) : skipNumber c =
    if c.digits.isEmpty then c.failNext .invalidNumber
    else if c.digits.head? = some '0' ∧ 1 < c.digits.length then
      c.advance.failNext .invalidNumber
    else if c.skipDigits.rest.head? = some '.' then
      if c.skipDigits.advance.digits.isEmpty then c.skipDigits.advance.failNext .invalidNumber
      else skipAnyExponent c.skipDigits.advance.skipDigits
    else skipAnyExponent c.skipDigits := rfl

theorem skipNumber_sound {c d : Cursor} (h : skipNumber c = .ok d) :
    ∃ t, IsUnsigned t ∧ c.Past t d := by
  rw [skipNumber_eq] at h
  split at h
  · cases h
  · next hdigits =>
    split at h
    · cases h
    · next hzero =>
      have hwhole := Cursor.digits_of_ne_nil hdigits
      have hlead : c.digits.head? = some '0' → c.digits = ['0'] := by
        intro h0
        obtain ⟨r, hr⟩ := List.head?_eq_some_iff.1 h0
        have hlen : ¬1 < c.digits.length := fun hl => hzero ⟨h0, hl⟩
        rw [hr] at hlen ⊢
        simp only [List.length_cons, Nat.lt_add_left_iff_pos, List.length_pos_iff, ne_eq,
          Decidable.not_not] at hlen
        rw [hlen]
      split at h
      · next hpoint =>
        split at h
        · cases h
        · next hfraction =>
          obtain ⟨x, hx, hpx⟩ := skipAnyExponent_sound h
          have hpp := Cursor.past_advance_iff.2 ⟨hpoint, rfl⟩
          refine ⟨_, ⟨c.digits, _, x, hwhole, hlead,
            .inr ⟨_, Cursor.digits_of_ne_nil hfraction, rfl⟩, hx, rfl⟩, ?_⟩
          exact c.past_skipDigits.trans
            ((hpp.trans (Cursor.past_skipDigits _)).trans hpx)
      · obtain ⟨x, hx, hpx⟩ := skipAnyExponent_sound h
        exact ⟨_, ⟨c.digits, [], x, hwhole, hlead, .inl rfl, hx, rfl⟩,
          c.past_skipDigits.trans hpx⟩

/-- What follows the digits of a number is no digit, wherever the number stops. -/
theorem IsExponent.not_digit {c d : Cursor} {t : List Char} (ht : IsExponent t)
    (hp : c.Past t d) (hd : d.Ends) :
    (∀ x ∈ c.rest.head?, Cursor.isDigit x = false) ∧ c.rest.head? ≠ some '.' := by
  rcases ht with rfl | ⟨mark, sign, ds, hm, -, -, rfl⟩
  · rw [Cursor.past_nil_iff.1 hp] at hd
    exact ⟨hd.not_digit, hd.not_point⟩
  · rw [hp.rest]
    simp only [List.mem_cons, List.not_mem_nil, or_false] at hm
    rcases hm with rfl | rfl <;> simp <;> decide

theorem skipNumber_of_past {c d : Cursor} {t : List Char} (ht : IsUnsigned t) (hp : c.Past t d)
    (hd : d.Ends) : skipNumber c = .ok d := by
  obtain ⟨whole, fraction, exponent, hwhole, hlead, hfraction, hexponent, rfl⟩ := ht
  obtain ⟨e, he, hp'⟩ := Cursor.past_append_iff.1 hp
  obtain ⟨f, hf, hpx⟩ := Cursor.past_append_iff.1 hp'
  have hx := skipAnyExponent_of_past hexponent hpx hd
  obtain ⟨hnd, hnp⟩ := hexponent.not_digit hpx hd
  have hzero : ¬(whole.head? = some '0' ∧ 1 < whole.length) := by
    rintro ⟨h0, hl⟩
    rw [hlead h0] at hl
    cases hl
    contradiction
  have hempty : ¬whole.isEmpty = true := by simpa using hwhole.1
  rw [skipNumber_eq]
  rcases hfraction with rfl | ⟨ds, hds, rfl⟩
  · rw [← Cursor.past_nil_iff.1 hf] at he
    obtain ⟨hdigits, hskip⟩ := he.digits_eq hwhole hnd
    rw [hdigits, hskip, if_neg hempty, if_neg hzero, if_neg hnp, hx]
  · obtain ⟨g, hg, hgf⟩ := Cursor.past_cons_iff.1 hf
    obtain ⟨hdigits, hskip⟩ := he.digits_eq hwhole (by
      intro x hx
      rw [hg.rest] at hx
      cases hx
      decide)
    obtain ⟨hdigits', hskip'⟩ := hgf.digits_eq hds hnd
    rw [hdigits, hskip, if_neg hempty, if_neg hzero, if_pos (by rw [hg.rest]; rfl), hg.advance_eq,
      hdigits', if_neg (by simpa using hds.1), hskip', hx]

/-! ## Counts that are read -/

theorem le_ofDigitChars (n : Nat) (ds : List Char) : n ≤ Nat.ofDigitChars 10 ds n := by
  induction ds generalizing n with
  | nil => exact Nat.le_refl n
  | cons d ds ih =>
    rw [Nat.ofDigitChars_cons]
    have := ih (10 * n + (d.toNat - '0'.toNat))
    omega

/-- Digits are all absorbed when the number that they denote stays within the limit. -/
theorem absorb_eq {limit n : Nat} {ds : List Char} (h : Nat.ofDigitChars 10 ds n ≤ limit) :
    absorb limit n ds = (Nat.ofDigitChars 10 ds n, ds.length) := by
  induction ds generalizing n with
  | nil => rfl
  | cons d ds ih =>
    rw [Nat.ofDigitChars_cons] at h ⊢
    have hnext : 10 * n + digitValue d ≤ limit := Nat.le_trans (le_ofDigitChars _ ds) h
    rw [absorb, if_pos hnext, show 10 * n + digitValue d = 10 * n + (d.toNat - '0'.toNat) from rfl,
      ih h]
    rfl

theorem digits_toDigits (n : Nat) : Digits (Nat.toDigits 10 n) := by
  refine ⟨Nat.toDigits_ne_nil, fun x hx => ?_⟩
  have hdigit := Nat.isDigit_of_mem_toDigits (by decide) (by decide) hx
  simp only [Char.isDigit, Bool.and_eq_true, decide_eq_true_eq] at hdigit
  exact hdigit

/-- The numeral of a count that fits 64 bits is read as this count. -/
theorem readNumber_of_past {c d : Cursor} {n : Nat} (hn : n < UInt64.size)
    (hp : c.Past (Nat.toDigits 10 n) d) (hd : d.Ends) :
    readNumber false c = .ok (.whole n, d) := by
  obtain ⟨hdigits, hskip⟩ := hp.digits_eq (digits_toDigits n) hd.not_digit
  have hzero : ¬((Nat.toDigits 10 n).head? = some '0' ∧ 1 < (Nat.toDigits 10 n).length) := by
    rintro ⟨h0, hl⟩
    rw [Text.eq_zero_of_head_toDigits (by decide) h0] at hl
    exact absurd hl (by decide)
  have hvalue : Nat.ofDigitChars 10 (Nat.toDigits 10 n) 0 = n := Nat.ofDigitChars_ten_toDigits
  have habsorb : absorb significandLimit 0 (Nat.toDigits 10 n) =
      (n, (Nat.toDigits 10 n).length) := by
    rw [absorb_eq, hvalue]
    rw [hvalue]
    exact Nat.le_pred_of_lt hn
  have hempty : ¬(Nat.toDigits 10 n).isEmpty = true := by simp
  simp only [readNumber, hdigits, hskip, habsorb, Nat.sub_self]
  rw [if_neg hempty, if_neg hzero, if_neg hd.not_point, hd.not_mark]
  rfl

end Json
end GrammarModule
