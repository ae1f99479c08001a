import GrammarModule.Json.Token
import GrammarModule.Proofs.Json.Literal

/-!
# GrammarModule.Proofs.Json.Token

What stands between values. Each reader of a token succeeds exactly when blanks and the token come
next, and then stands after it; the separators of lists and objects are those of `Lead`.
-/

namespace GrammarModule
namespace Json

namespace Cursor

/-- A character stands next that is neither a blank nor `close`. -/
def Stands (close : Char) (c : Cursor) : Prop :=
  ∃ x r, c.rest = x :: r ∧ isBlank x = false ∧ x ≠ close

theorem Stands.solid {close : Char} {c : Cursor} (h : c.Stands close) : c.Solid := by
  obtain ⟨x, r, hr, hx, -⟩ := h
  exact solid_of_rest hr hx

theorem stands_of_solid {close x : Char} {r : List Char} {c : Cursor} (h : c.rest = x :: r)
    (hs : c.Solid) (hx : x ≠ close) : c.Stands close :=
  ⟨x, r, h, hs x (by simp [h]), hx⟩

end Cursor

/-- Begins like a value: with no blank and nothing that closes a list or an object. -/
def Opens (t : List Char) : Prop :=
  ∃ x r, t = x :: r ∧ Cursor.isBlank x = false ∧ x ≠ ']' ∧ x ≠ '\x7d'

theorem Opens.stands {c d : Cursor} {t : List Char} (h : Opens t) (hp : c.Past t d) :
    c.Stands ']' ∧ c.Stands '\x7d' := by
  obtain ⟨x, r, rfl, hx, hlist, hobject⟩ := h
  exact ⟨⟨x, _, hp.rest, hx, hlist⟩, ⟨x, _, hp.rest, hx, hobject⟩⟩

theorem expectWord_eq_ok_iff {c d : Cursor} {w : List Char} :
    expectWord c w = .ok d ↔ c.Past w d := by
  induction w generalizing c with
  | nil => simp [expectWord, Cursor.past_nil_iff, eq_comm]
  | cons letter letters ih =>
    rw [Cursor.past_cons_iff, expectWord]
    cases hc : c.rest with
    | nil => simp [Cursor.failHere, Cursor.past_advance_iff, hc]
    | cons next r =>
      by_cases hn : next = letter
      · simp [hn, ih, Cursor.past_advance_iff, hc]
      · simp [hn, Cursor.failNext, Cursor.past_advance_iff, hc]

/-! ## Lists -/

theorem nextItem_false_iff {first : Bool} {c d : Cursor} :
    nextItem first c = .ok (false, d) ↔ ∃ b, Blanks b ∧ c.Past (b ++ [']']) d := by
  constructor
  · intro h
    simp only [nextItem] at h
    split at h
    · cases h
    · next hr =>
      cases h
      exact Cursor.past_of_skipBlank hr
    · next hr =>
      split at h
      · cases h
      · split at h <;> cases h
    · split at h <;> cases h
  · rintro ⟨b, hb, hp⟩
    obtain ⟨hr, hd⟩ := Cursor.rest_skipBlank_of_past hp hb (by decide)
    simp only [nextItem, hr, Cursor.past_nil_iff.1 hd]

theorem nextItem_true_iff {first : Bool} {c d : Cursor} :
    nextItem first c = .ok (true, d) ↔ (∃ s, Lead first s ∧ c.Past s d) ∧ d.Stands ']' := by
  constructor
  · intro h
    obtain ⟨b, hb, hp⟩ := c.exists_past_skipBlank
    simp only [nextItem] at h
    split at h
    · cases h
    · cases h
    · next hr =>
      split at h
      · next hfirst =>
        subst hfirst
        cases h
        exact ⟨⟨b, .first hb, hp⟩, Cursor.stands_of_solid hr c.solid_skipBlank (by decide)⟩
      · next hfirst =>
        obtain rfl : first = false := by simpa using hfirst
        obtain ⟨b', hb', hp'⟩ := c.skipBlank.advance.exists_past_skipBlank
        split at h
        · cases h
        · cases h
        · next hnil hclose =>
          cases h
          refine ⟨⟨b ++ ',' :: b', .comma hb hb', ?_⟩, ?_⟩
          · exact hp.trans ((Cursor.past_advance hr).trans hp')
          · cases hrest : c.skipBlank.advance.skipBlank.rest with
            | nil => exact absurd hrest hnil
            | cons x r =>
              refine Cursor.stands_of_solid hrest (Cursor.solid_skipBlank _) ?_
              rintro rfl
              exact hclose _ hrest
    · next hnil hclose hcomma =>
      split at h
      · next hfirst =>
        subst hfirst
        cases h
        refine ⟨⟨b, .first hb, hp⟩, ?_⟩
        cases hrest : c.skipBlank.rest with
        | nil => exact absurd hrest hnil
        | cons x r =>
          refine Cursor.stands_of_solid hrest c.solid_skipBlank ?_
          rintro rfl
          exact hclose _ hrest
      · cases h
  · rintro ⟨⟨s, hs, hp⟩, hd⟩
    have hsolid := hd.solid
    obtain ⟨x, r, hr, -, hx⟩ := hd
    cases hs with
    | first hb =>
      have hskip := hp.skipBlank_eq hb hsolid
      simp only [nextItem, hskip, hr]
      split
      · next h => cases h
      · next h => cases h; exact absurd rfl hx
      · rfl
      · rfl
    | comma hb hb' =>
      obtain ⟨hcomma, hp'⟩ := Cursor.rest_skipBlank_of_past hp hb (by decide)
      have hskip := hp'.skipBlank_eq hb' hsolid
      simp only [nextItem, hcomma, hskip, hr, Bool.false_eq_true, if_false]
      split
      · next h => cases h
      · next h => cases h; exact absurd rfl hx
      · rfl

/-- The closing bracket of a list that has had all its items. -/
theorem closeList_eq_ok_iff {c d : Cursor} :
    closeList c = .ok d ↔ ∃ b, Blanks b ∧ c.Past (b ++ [']']) d := by
  constructor
  · intro h
    simp only [closeList] at h
    split at h
    · cases h
    · next hr =>
      cases h
      exact Cursor.past_of_skipBlank hr
    · cases h
    · cases h
  · rintro ⟨b, hb, hp⟩
    obtain ⟨hr, hd⟩ := Cursor.rest_skipBlank_of_past hp hb (by decide)
    simp only [closeList, hr, Cursor.past_nil_iff.1 hd]

/-! ## Objects -/

/-- A string literal as a key is read: its opening quote, and then the rest. -/
theorem past_textLiteral_iff {c d : Cursor} {s : String} :
    (∃ t, TextLiteral s t ∧ c.Past t d) ↔
      c.rest.head? = some '"' ∧ readText c.advance = .ok (s, d) := by
  simp only [readText_eq_ok_iff]
  constructor
  · rintro ⟨t, ⟨r, hr, rfl⟩, hp⟩
    obtain ⟨e, he, hd⟩ := Cursor.past_cons_iff.1 hp
    obtain ⟨hhead, rfl⟩ := Cursor.past_advance_iff.1 he
    exact ⟨hhead, r, hr, hd⟩
  · rintro ⟨hhead, r, hr, hd⟩
    exact ⟨_, ⟨r, hr, rfl⟩, (Cursor.past_advance_iff.2 ⟨hhead, rfl⟩).trans hd⟩

theorem nextKey_none_iff {first : Bool} {c d : Cursor} :
    nextKey first c = .ok (none, d) ↔ ∃ b, Blanks b ∧ c.Past (b ++ ['\x7d']) d := by
  have hkey : ∀ e : Cursor,
      (readText e.advance >>= fun r => .ok (some r.1, r.2)) ≠ .ok (none, d) := by
    intro e h
    obtain ⟨⟨s, m⟩, -, h⟩ := bind_eq_ok_iff.1 h
    cases h
  constructor
  · intro h
    simp only [nextKey] at h
    split at h
    · cases h
    · next hr =>
      cases h
      exact Cursor.past_of_skipBlank hr
    · split at h
      · exact absurd h (hkey _)
      · cases h
    · split at h
      · cases h
      · split at h
        · cases h
        · exact absurd h (hkey _)
        · cases h
        · cases h
    · cases h
  · rintro ⟨b, hb, hp⟩
    obtain ⟨hr, hd⟩ := Cursor.rest_skipBlank_of_past hp hb (by decide)
    simp only [nextKey, hr, Cursor.past_nil_iff.1 hd]

theorem nextKey_some_iff {first : Bool} {c d : Cursor} {key : String} :
    nextKey first c = .ok (some key, d) ↔
      ∃ s t, Lead first s ∧ TextLiteral key t ∧ c.Past (s ++ t) d := by
  have hkey : ∀ e : Cursor,
      (readText e.advance >>= fun r => .ok (some r.1, r.2)) = .ok (some key, d) ↔
      readText e.advance = .ok (key, d) := by
    intro e
    rw [bind_eq_ok_iff]
    constructor
    · rintro ⟨⟨s, m⟩, hs, h⟩
      cases h
      exact hs
    · intro h
      exact ⟨_, h, rfl⟩
  constructor
  · intro h
    obtain ⟨b, hb, hp⟩ := c.exists_past_skipBlank
    simp only [nextKey] at h
    split at h
    · cases h
    · cases h
    · next hr =>
      split at h
      · next hfirst =>
        subst hfirst
        obtain ⟨t, ht, hpt⟩ := past_textLiteral_iff.2 ⟨by rw [hr]; rfl, (hkey _).1 h⟩
        exact ⟨b, t, .first hb, ht, hp.trans hpt⟩
      · cases h
    · next hr =>
      split at h
      · cases h
      · next hfirst =>
        obtain rfl : first = false := by simpa using hfirst
        obtain ⟨b', hb', hp'⟩ := c.skipBlank.advance.exists_past_skipBlank
        split at h
        · cases h
        · next hr' =>
          obtain ⟨t, ht, hpt⟩ := past_textLiteral_iff.2 ⟨by rw [hr']; rfl, (hkey _).1 h⟩
          exact ⟨b ++ ',' :: b', t, .comma hb hb', ht,
            (hp.trans ((Cursor.past_advance hr).trans hp')).trans hpt⟩
        · cases h
        · cases h
    · cases h
  · rintro ⟨s, t, hs, ht, hp⟩
    obtain ⟨e, he, hpt⟩ := Cursor.past_append_iff.1 hp
    obtain ⟨hhead, hread⟩ := past_textLiteral_iff.1 ⟨t, ht, hpt⟩
    obtain ⟨r, hr⟩ := List.head?_eq_some_iff.1 hhead
    have hsolid := Cursor.solid_of_rest hr (by decide)
    cases hs with
    | first hb =>
      simp only [nextKey, he.skipBlank_eq hb hsolid, hr, if_true]
      exact (hkey e).2 hread
    | comma hb hb' =>
      obtain ⟨hcomma, he'⟩ := Cursor.rest_skipBlank_of_past he hb (by decide)
      simp only [nextKey, hcomma, he'.skipBlank_eq hb' hsolid, hr, Bool.false_eq_true, if_false]
      exact (hkey e).2 hread

theorem expectColon_eq_ok_iff {c d : Cursor} :
    expectColon c = .ok d ↔ ∃ b, Blanks b ∧ c.Past (b ++ [':']) d := by
  constructor
  · intro h
    simp only [expectColon] at h
    split at h
    · cases h
    · next hr =>
      cases h
      exact Cursor.past_of_skipBlank hr
    · cases h
  · rintro ⟨b, hb, hp⟩
    obtain ⟨hr, hd⟩ := Cursor.rest_skipBlank_of_past hp hb (by decide)
    simp only [expectColon, hr, Cursor.past_nil_iff.1 hd]

/-! ## The end -/

theorem expectEnd_eq_ok_iff {c : Cursor} : expectEnd c = .ok () ↔ Blanks c.rest := by
  obtain ⟨b, hb, hp⟩ := c.exists_past_skipBlank
  constructor
  · intro h
    simp only [expectEnd] at h
    split at h
    · next hr =>
      rw [hp.rest, List.isEmpty_iff.1 hr, List.append_nil]
      exact hb
    · cases h
  · intro h
    cases hr : c.skipBlank.rest with
    | nil => simp [expectEnd, hr]
    | cons x r =>
      have hx := h x (by simp [hp.rest, hr])
      have hsolid := c.solid_skipBlank x (by simp [hr])
      rw [Cursor.isBlank_iff.2 hx] at hsolid
      cases hsolid

end Json
end GrammarModule
