import Mathlib.Tactic.TFAE
import GrammarModule.Proofs.Catalogue.RoundTrip
import GrammarModule.Proofs.Text.Numeral

/-!
# GrammarModule.Proofs.Exports

What tools show of the exports tells them apart. The text of a handle is the hexadecimal numeral of
its address, and a numeral denotes one number; so handles, exports, their items, their summaries
and the texts of the summaries are equal together (`determined_by_view`).
-/

namespace GrammarModule

open Text (Numeral)

/-- `0x` and the digits of the address, none of which is a leading zero; of all numbers they denote
the address only. -/
def ShowsAddress (text : String) (address : UInt64) : Prop :=
  ∃ digits, text.toList = '0' :: 'x' :: digits ∧
    (∀ c ∈ digits, c ∈ "0123456789abcdef".toList) ∧ digits.head? ≠ some '0' ∧
    ∀ n, Numeral 16 digits n ↔ n = address.toNat

theorem Text.Numeral.mem_digits {t : List Char} {n : Nat} (h : Numeral 16 t n) :
    ∀ c ∈ t, c ∈ "0123456789abcdef".toList := by
  have hall : ∀ d < 16, Nat.digitChar d ∈ "0123456789abcdef".toList := by decide
  induction h with
  | digit hd => simpa using hall _ hd
  | more _ hd ih =>
    intro c hc
    rcases List.mem_append.1 hc with hc | hc
    · exact ih c hc
    · cases List.mem_singleton.1 hc
      exact hall _ hd

theorem ShowsAddress.unique {text : String} {a b : UInt64} (ha : ShowsAddress text a)
    (hb : ShowsAddress text b) : a = b := by
  obtain ⟨digits, hdigits, -, -, ha⟩ := ha
  obtain ⟨digits', hdigits', -, -, hb⟩ := hb
  rw [hdigits] at hdigits'
  obtain rfl : digits = digits' := by simpa using hdigits'
  exact UInt64.toNat_inj.1 ((hb _).1 ((ha _).2 rfl))

theorem Handle.text_shows (h : Handle) : ShowsAddress h.text h.address := by
  have hnumeral : Numeral 16 (Text.hexadecimal h.address.toNat) h.address.toNat :=
    Text.numeral_toDigits (by decide) _
  refine ⟨_, String.toList_ofList, hnumeral.mem_digits, fun hzero => ?_, fun n => ?_⟩
  · have := Text.eq_zero_of_head_toDigits (by decide) hzero
    exact h.address_ne (UInt64.toNat_inj.1 this)
  · constructor
    · intro hn
      exact hn.unique (by decide) hnumeral
    · rintro rfl
      exact hnumeral

theorem Handle.text_inj {h k : Handle} : h.text = k.text ↔ h = k := by
  constructor
  · intro htext
    have haddress := h.text_shows.unique (htext ▸ k.text_shows)
    cases h; cases k; cases haddress
    rfl
  · rintro rfl
    rfl

namespace Exports

/-- The exports of the grammar whose tables are at an address. -/
def ofAddress? (address : UInt64) : Option Exports := (Handle.ofAddress? address).map Exports.mk

theorem ofAddress?_eq_some_iff {address : UInt64} {e : Exports} :
    ofAddress? address = some e ↔ e.handle.address = address := by
  rw [ofAddress?, ← Handle.ofAddress?_eq_some_iff, Option.map_eq_some_iff]
  constructor
  · rintro ⟨h, hh, rfl⟩
    exact hh
  · exact fun h => ⟨_, h, rfl⟩

theorem exists_ofAddress? {address : UInt64} (h : address ≠ 0) :
    ∃ e, ofAddress? address = some e := ⟨⟨⟨address, h⟩⟩, ofAddress?_eq_some_iff.2 rfl⟩

theorem eq_iff_address_eq {e f : Exports} : e = f ↔ e.handle.address = f.handle.address := by
  constructor
  · rintro rfl
    rfl
  · intro h
    obtain ⟨⟨a, _⟩⟩ := e
    obtain ⟨⟨b, _⟩⟩ := f
    cases h
    rfl

/-- Exports from two addresses agree in one of these respects exactly if they agree in all of
them, and then they have one hash; the summary shows the address, before it is written and after it
has been read back. -/
theorem determined_by_view {a b : UInt64} (ha : a ≠ 0) (hb : b ≠ 0) :
    ∃ ra rb : Exports, ofAddress? a = some ra ∧ ofAddress? b = some rb ∧
      [ra = rb, a = b, ra.handle = rb.handle, ra.items = rb.items, ra.summary = rb.summary,
        Summary.format.codec.render ra.summary = Summary.format.codec.render rb.summary].TFAE ∧
      (ra = rb → hash ra = hash rb) ∧
      ShowsAddress ra.summary.language a ∧
      ∃ s, Summary.format.codec.parse (Summary.format.codec.render ra.summary) = .ok s ∧
        ShowsAddress s.language a := by
  obtain ⟨ra, hra⟩ := exists_ofAddress? ha
  obtain ⟨rb, hrb⟩ := exists_ofAddress? hb
  have hshows := ra.handle.text_shows
  have haddress := ofAddress?_eq_some_iff.1 hra
  have haddress' := ofAddress?_eq_some_iff.1 hrb
  rw [haddress] at hshows
  refine ⟨ra, rb, hra, hrb, ?_, fun h => by rw [h], hshows, ra.summary,
    Summary.law.parse_render _, hshows⟩
  tfae_have 1 ↔ 2 := by rw [eq_iff_address_eq, haddress, haddress']
  tfae_have 1 → 4 := fun h => by rw [h]
  tfae_have 4 → 3 := fun h => by simpa [items] using (List.cons.inj (List.cons.inj h).2).1
  tfae_have 3 → 5 := fun h => by rw [summary, summary, h]; rfl
  tfae_have 5 → 1 := fun h => by
    have htext : ra.handle.text = rb.handle.text := congrArg Summary.language h
    rw [eq_iff_address_eq, Handle.text_inj.1 htext]
  tfae_have 5 ↔ 6 := Summary.law.render_inj.symm
  tfae_finish

/-- At two addresses that follow one another. -/
theorem determined_by_view_neighbours :
    ∃ ra rb : Exports, ofAddress? 0x1000 = some ra ∧ ofAddress? 0x1001 = some rb ∧
      ra.summary ≠ rb.summary ∧ ra.items ≠ rb.items ∧ ShowsAddress ra.summary.language 0x1000 := by
  obtain ⟨ra, rb, hra, hrb, hequal, -, hshows, -⟩ :=
    determined_by_view (a := 0x1000) (b := 0x1001) (by decide) (by decide)
  have hne : ¬(0x1000 : UInt64) = 0x1001 := by decide
  exact ⟨ra, rb, hra, hrb, fun h => hne ((hequal.out 4 1).1 h), fun h => hne ((hequal.out 3 1).1 h),
    hshows⟩

end Exports

end GrammarModule
