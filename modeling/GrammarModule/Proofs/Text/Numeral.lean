import Mathlib.Data.Nat.Basic
import Mathlib.Data.List.Basic

/-!
# GrammarModule.Proofs.Text.Numeral

Numerals to a base of at most sixteen, in digits of lower case. A numeral denotes one number
(`Numeral.unique`), however many zeros lead it; the digits that are written for a number denote it
(`numeral_toDigits`), and a zero leads them only for zero.
-/

namespace GrammarModule
namespace Text

/-- One or more digits, and the number that they denote. -/
inductive Numeral (base : Nat) : List Char → Nat → Prop
  | digit {d : Nat} (hd : d < base) : Numeral base [Nat.digitChar d] d
  | more {t : List Char} {n d : Nat} (ht : Numeral base t n) (hd : d < base) :
      Numeral base (t ++ [Nat.digitChar d]) (base * n + d)

variable {base : Nat} {t : List Char} {m n d : Nat}

theorem Numeral.ne_nil (h : Numeral base t n) : t ≠ [] := by
  cases h <;> simp

theorem digitChar_inj (hm : m < 16) (hn : n < 16) : Nat.digitChar m = Nat.digitChar n ↔ m = n := by
  have hall : ∀ i < 16, ∀ j < 16, Nat.digitChar i = Nat.digitChar j → i = j := by decide
  exact ⟨hall m hm n hn, congrArg _⟩

/-- The last digit of a numeral, and what the digits before it denote. -/
theorem numeral_append_iff {c : Char} :
    Numeral base (t ++ [c]) n ↔
      ∃ m d, d < base ∧ c = Nat.digitChar d ∧ n = base * m + d ∧
        (Numeral base t m ∨ t = [] ∧ m = 0) := by
  constructor
  · intro h
    generalize hs : t ++ [c] = s at h
    cases h with
    | digit hd =>
      obtain ⟨rfl, hc⟩ := List.append_inj' (show t ++ [c] = [] ++ [_] from hs) rfl
      exact ⟨0, n, hd, by simpa using hc, by simp, .inr ⟨rfl, rfl⟩⟩
    | @more s m d hm hd =>
      obtain ⟨rfl, hc⟩ := List.append_inj' hs rfl
      exact ⟨m, d, hd, by simpa using hc, rfl, .inl hm⟩
  · rintro ⟨m, d, hd, rfl, rfl, hm | ⟨rfl, rfl⟩⟩
    · exact .more hm hd
    · simpa using Numeral.digit hd

theorem Numeral.unique (hbase : base ≤ 16) (hm : Numeral base t m) (hn : Numeral base t n) :
    m = n := by
  induction hm generalizing n with
  | @digit d hd =>
    have hlast : Numeral base ([] ++ [Nat.digitChar d]) n := hn
    obtain ⟨k, e, he, hc, rfl, hk | ⟨-, rfl⟩⟩ := numeral_append_iff.1 hlast
    · exact absurd rfl hk.ne_nil
    · have := (digitChar_inj (by omega) (by omega)).1 hc
      omega
  | @more t m d hm hd ih =>
    obtain ⟨k, e, he, hc, rfl, hk | ⟨rfl, -⟩⟩ := numeral_append_iff.1 hn
    · rw [ih hk, (digitChar_inj (by omega) (by omega)).1 hc]
    · exact absurd rfl hm.ne_nil

theorem numeral_toDigits (hbase : 1 < base) (n : Nat) : Numeral base (Nat.toDigits base n) n := by
  induction n using Nat.strongRecOn with
  | ind n ih =>
    rw [Nat.toDigits_eq_if hbase]
    split
    · next h => exact .digit h
    · next h =>
      have hmore := Numeral.more (ih (n / base) (Nat.div_lt_self (by omega) hbase))
        (Nat.mod_lt n (by omega))
      rwa [Nat.div_add_mod] at hmore

/-- A zero leads only the numeral of zero. -/
theorem eq_zero_of_head_toDigits (hbase : 1 < base)
    (h : (Nat.toDigits base n).head? = some '0') : n = 0 := by
  induction n using Nat.strongRecOn with
  | ind n ih =>
    rw [Nat.toDigits_eq_if hbase] at h
    split at h
    · exact Nat.digitChar_eq_zero.1 (by simpa using h)
    · next hn =>
      have hlead : (Nat.toDigits base (n / base)).head? = some '0' := by
        rwa [List.head?_append_of_ne_nil _ Nat.toDigits_ne_nil] at h
      have hzero := ih (n / base) (Nat.div_lt_self (by omega) hbase) hlead
      rw [Nat.div_eq_zero_iff] at hzero
      omega

end Text
end GrammarModule
