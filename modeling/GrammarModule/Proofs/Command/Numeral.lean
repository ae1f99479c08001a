import Mathlib.Data.List.Induction
import GrammarModule.Command.Request
import GrammarModule.Proofs.Text.Numeral
import GrammarModule.Proofs.Text.Utf8

/-!
# GrammarModule.Proofs.Command.Numeral

The text of a version of the binary interface. It is accepted exactly if it is a decimal numeral,
with or without a sign, of an unsigned integer of 32 bits, and it then stands for this integer
(`abiOfBytes?_eq_some_iff`).
-/

namespace GrammarModule
namespace Command

open Text (Numeral)

variable {value : List UInt8} {t : List Char} {n : Nat}

/-- One or more decimal digits, with or without a sign, and the integer that they denote. -/
inductive SignedNumeral : List Char → Int → Prop
  | unsigned {t : List Char} {n : Nat} (h : Numeral 10 t n) : SignedNumeral t n
  | plus {t : List Char} {n : Nat} (h : Numeral 10 t n) : SignedNumeral ('+' :: t) n
  | minus {t : List Char} {n : Nat} (h : Numeral 10 t n) : SignedNumeral ('-' :: t) (-n)

theorem isDigit_iff_exists {c : Char} :
    c.isDigit = true ↔ ∃ d < 10, c = Nat.digitChar d := by
  constructor
  · intro h
    have hrange := Char.isDigit_iff_toNat.1 h
    have hzero : '0'.toNat = 48 := rfl
    have hnine : '9'.toNat = 57 := rfl
    refine ⟨c.toNat - 48, by omega, Char.toNat_inj.1 ?_⟩
    rw [Nat.toNat_digitChar_of_lt_ten (by omega)]
    omega
  · rintro ⟨d, hd, rfl⟩
    rw [Nat.isDigit_digitChar, decide_eq_true hd]

/-- Digits, of which there may be none, add up by place. -/
theorem all_digits_iff : t.all Char.isDigit = true ∧ Nat.ofDigitChars 10 t 0 = n ↔
    Numeral 10 t n ∨ t = [] ∧ n = 0 := by
  induction t using List.reverseRecOn generalizing n with
  | nil =>
    refine ⟨fun ⟨_, h⟩ => .inr ⟨rfl, h.symm⟩, ?_⟩
    rintro (h | ⟨-, rfl⟩)
    · exact absurd rfl h.ne_nil
    · exact ⟨rfl, rfl⟩
  | append_singleton t c ih =>
    rw [List.all_append, Bool.and_eq_true, Nat.ofDigitChars_append, Nat.ofDigitChars_cons,
      Nat.ofDigitChars_nil, List.all_cons, List.all_nil, Bool.and_true, isDigit_iff_exists,
      Text.numeral_append_iff]
    constructor
    · rintro ⟨⟨ht, d, hd, rfl⟩, rfl⟩
      refine .inl ⟨_, d, hd, rfl, ?_, ih.1 ⟨ht, rfl⟩⟩
      rw [show '0'.toNat = 48 from rfl, Nat.toNat_digitChar_sub_48_of_lt_ten hd]
    · rintro (⟨m, d, hd, rfl, rfl, hm⟩ | ⟨h, -⟩)
      · obtain ⟨ht, rfl⟩ := ih.2 hm
        refine ⟨⟨ht, d, hd, rfl⟩, ?_⟩
        rw [show '0'.toNat = 48 from rfl, Nat.toNat_digitChar_sub_48_of_lt_ten hd]
      · simp at h

theorem naturalOfDigits?_eq_some_iff : naturalOfDigits? t = some n ↔ Numeral 10 t n := by
  have hvalue : naturalOfDigits? t =
      if t.isEmpty || !t.all Char.isDigit then none else some (Nat.ofDigitChars 10 t 0) := rfl
  rw [hvalue]
  constructor
  · intro h
    split_ifs at h with hbad
    simp only [Bool.or_eq_true, not_or, Bool.not_eq_true, Bool.not_eq_false',
      List.isEmpty_eq_false_iff] at hbad
    refine (all_digits_iff.1 ⟨hbad.2, Option.some.inj h⟩).resolve_right ?_
    exact fun hempty => hbad.1 hempty.1
  · intro h
    obtain ⟨ht, hn⟩ := all_digits_iff.2 (.inl h)
    rw [if_neg, hn]
    simp [ht, h.ne_nil]

/-- No sign stands before the digits of a numeral without one. -/
theorem ne_sign_of_numeral {c : Char} (h : Numeral 10 (c :: t) n) : c ≠ '-' ∧ c ≠ '+' := by
  have hdigits := (all_digits_iff.2 (.inl h)).1
  rw [List.all_cons, Bool.and_eq_true] at hdigits
  constructor <;> rintro rfl <;> exact absurd hdigits.1 (by decide)

theorem integerOfText?_eq_some_iff {z : Int} : integerOfText? t = some z ↔ SignedNumeral t z := by
  constructor
  · intro h
    unfold integerOfText? at h
    split at h
    · obtain ⟨_, hz, rfl⟩ := Option.map_eq_some_iff.1 h
      obtain ⟨n, hn, hz⟩ := Option.bind_eq_some_iff.1 hz
      cases hz
      exact .minus (naturalOfDigits?_eq_some_iff.1 hn)
    · obtain ⟨n, hn, rfl⟩ := Option.map_eq_some_iff.1 h
      exact .plus (naturalOfDigits?_eq_some_iff.1 hn)
    · obtain ⟨n, hn, rfl⟩ := Option.map_eq_some_iff.1 h
      exact .unsigned (naturalOfDigits?_eq_some_iff.1 hn)
  · intro h
    cases h with
    | @unsigned _ n h =>
      have hn := naturalOfDigits?_eq_some_iff.2 h
      unfold integerOfText?
      split
      · exact absurd rfl (ne_sign_of_numeral h).1
      · exact absurd rfl (ne_sign_of_numeral h).2
      · rw [hn]
        rfl
    | plus h => rw [integerOfText?, naturalOfDigits?_eq_some_iff.2 h]; rfl
    | minus h => rw [integerOfText?, naturalOfDigits?_eq_some_iff.2 h]; rfl

/-- The bytes of a numeral of an unsigned integer of 32 bits. -/
def DenotesVersion (value : List UInt8) (n : Nat) : Prop :=
  n < UInt32.size ∧ ∃ text, value = Text.encode text ∧ SignedNumeral text n

theorem abiOfBytes?_eq_some_iff {abi : UInt32} :
    abiOfBytes? value = some abi ↔ DenotesVersion value abi.toNat := by
  simp only [abiOfBytes?, Option.bind_eq_bind, Option.bind_eq_some_iff,
    Text.decode?_eq_some_iff, integerOfText?_eq_some_iff]
  constructor
  · rintro ⟨text, rfl, z, hz, h⟩
    split_ifs at h with hrange
    cases h
    have hnat : z.toNat.toUInt32.toNat = z.toNat :=
      UInt32.toNat_ofNat_of_lt' ((Int.toNat_lt hrange.1).2 hrange.2)
    refine ⟨UInt32.toNat_lt_size _, text, rfl, ?_⟩
    rwa [hnat, Int.toNat_of_nonneg hrange.1]
  · rintro ⟨hlt, text, rfl, hz⟩
    refine ⟨text, rfl, _, hz, ?_⟩
    rw [if_pos (by omega), Int.toNat_natCast, Nat.toUInt32_eq, UInt32.ofNat_toNat]

theorem denotesVersion_iff :
    DenotesVersion value n ↔ ∃ abi, abiOfBytes? value = some abi ∧ abi.toNat = n := by
  constructor
  · intro h
    have hnat : (UInt32.ofNat n).toNat = n := UInt32.toNat_ofNat_of_lt' h.1
    exact ⟨.ofNat n, abiOfBytes?_eq_some_iff.2 (by rwa [hnat]), hnat⟩
  · rintro ⟨abi, habi, rfl⟩
    exact abiOfBytes?_eq_some_iff.1 habi

end Command
end GrammarModule
