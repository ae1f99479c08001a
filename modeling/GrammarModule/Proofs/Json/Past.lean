import GrammarModule.Json.Cursor
import GrammarModule.Proofs.Json.Grammar

/-!
# GrammarModule.Proofs.Json.Past

Cursors on one text. `c.Past t d` says that `d` stands where `c` does after the text `t`; readers
are described by the text that they pass, and such descriptions compose (`past_append_iff`). A
reader skips blanks before it looks at a character, so `skipBlank` is described here as well:
it passes blanks (`exists_past_skipBlank`) and stops where none stands next (`solid_skipBlank`),
which leaves it one place to stop (`Past.skipBlank_eq`).
-/

namespace GrammarModule
namespace Json

/-- A reader in two steps succeeds when both do, the second on what the first gave. -/
theorem bind_eq_ok_iff {ε α β : Type} {x : Except ε α} {f : α → Except ε β} {b : β} :
    (x >>= f) = .ok b ↔ ∃ a, x = .ok a ∧ f a = .ok b := by
  cases x with
  | error e => simp [bind, Except.bind]
  | ok a => simp [bind, Except.bind]

theorem blanks_nil : Blanks [] := by
  intro x hx
  cases hx

theorem Blanks.append {s t : List Char} (hs : Blanks s) (ht : Blanks t) : Blanks (s ++ t) := by
  intro x hx
  rcases List.mem_append.1 hx with hx | hx
  · exact hs x hx
  · exact ht x hx

namespace Cursor

/-- `d` is the cursor after the text `t`, which is what comes next at `c`. -/
structure Past (c : Cursor) (t : List Char) (d : Cursor) : Prop where
  rest : c.rest = t ++ d.rest
  position : d.position = c.position.afterText t

theorem Past.refl (c : Cursor) : c.Past [] c := ⟨rfl, rfl⟩

theorem past_nil_iff {c d : Cursor} : c.Past [] d ↔ d = c := by
  constructor
  · intro h
    cases c; cases d
    have hr := h.rest
    have hp := h.position
    simp_all
  · rintro rfl
    exact .refl d

theorem Past.trans {c d e : Cursor} {s t : List Char} (h : c.Past s d) (h' : d.Past t e) :
    c.Past (s ++ t) e where
  rest := by rw [h.rest, h'.rest, List.append_assoc]
  position := by rw [h'.position, h.position, Position.afterText_append]

theorem past_append_iff {c e : Cursor} {s t : List Char} :
    c.Past (s ++ t) e ↔ ∃ d, c.Past s d ∧ d.Past t e := by
  constructor
  · intro h
    refine ⟨⟨c.position.afterText s, t ++ e.rest⟩, ⟨?_, rfl⟩, ⟨rfl, ?_⟩⟩
    · rw [h.rest, List.append_assoc]
    · rw [h.position, Position.afterText_append]
  · rintro ⟨d, h, h'⟩
    exact h.trans h'

theorem past_cons_iff {c e : Cursor} {x : Char} {t : List Char} :
    c.Past (x :: t) e ↔ ∃ d, c.Past [x] d ∧ d.Past t e :=
  past_append_iff (s := [x])

/-- A cursor and the text after it fix the cursor behind that text. -/
theorem Past.unique {c d e : Cursor} {t : List Char} (h : c.Past t d) (h' : c.Past t e) :
    d = e := by
  cases d; cases e
  have hr := h.rest.symm.trans h'.rest
  have hp := h.position.trans h'.position.symm
  simp_all

theorem Past.length_rest {c d : Cursor} {t : List Char} (h : c.Past t d) :
    c.rest.length = t.length + d.rest.length := by
  rw [h.rest, List.length_append]

/-! ## Single characters -/

theorem past_advance {c : Cursor} {x : Char} {r : List Char} (h : c.rest = x :: r) :
    c.Past [x] c.advance := by
  simp only [advance, h]
  exact ⟨h, rfl⟩

theorem past_advance_iff {c d : Cursor} {x : Char} :
    c.Past [x] d ↔ c.rest.head? = some x ∧ d = c.advance := by
  constructor
  · intro h
    exact ⟨by rw [h.rest]; rfl, h.unique (past_advance h.rest)⟩
  · rintro ⟨h, rfl⟩
    obtain ⟨r, hr⟩ := List.head?_eq_some_iff.1 h
    exact past_advance hr

theorem Past.advance_eq {c d : Cursor} {x : Char} (h : c.Past [x] d) : c.advance = d :=
  (past_advance_iff.1 h).2.symm

theorem Past.eq_after {c d : Cursor} {x : Char} (h : c.Past [x] d) :
    (⟨c.position.after x, d.rest⟩ : Cursor) = d := by
  cases d
  have hp := h.position
  simp_all

theorem past_drop (c : Cursor) (n : Nat) : c.Past (c.rest.take n) (c.drop n) where
  rest := (List.take_append_drop n c.rest).symm
  position := rfl

theorem Past.drop_eq {c d : Cursor} {t : List Char} (h : c.Past t d) : c.drop t.length = d := by
  have ht : c.rest.take t.length = t := by rw [h.rest, List.take_left]
  have hd := c.past_drop t.length
  rw [ht] at hd
  exact hd.unique h

/-! ## Runs of characters -/

theorem past_takeWhile (p : Char → Bool) (c : Cursor) :
    c.Past (c.rest.takeWhile p) (c.drop (c.rest.takeWhile p).length) := by
  have h := c.past_drop (c.rest.takeWhile p).length
  have ht : c.rest.take (c.rest.takeWhile p).length = c.rest.takeWhile p := by
    conv => lhs; arg 2; rw [← List.takeWhile_append_dropWhile (p := p) (l := c.rest)]
    rw [List.take_left]
  rwa [ht] at h

/-- A run is the longest one: it ends where a character of another kind stands next. -/
theorem Past.takeWhile_eq {p : Char → Bool} {c d : Cursor} {t : List Char} (h : c.Past t d)
    (ht : ∀ x ∈ t, p x = true) (hd : ∀ x ∈ d.rest.head?, p x = false) :
    c.rest.takeWhile p = t := by
  rw [h.rest, List.takeWhile_append_of_pos ht]
  cases hr : d.rest with
  | nil => simp
  | cons x r => simp [hd x (by simp [hr])]

/-! ## Blanks -/

/-- No blank stands next. -/
def Solid (c : Cursor) : Prop := ∀ x ∈ c.rest.head?, isBlank x = false

theorem isBlank_iff {x : Char} : isBlank x = true ↔ x ∈ [' ', '\n', '\t', '\r'] := by
  simp [isBlank, or_assoc]

theorem blanks_takeWhile (t : List Char) : Blanks (t.takeWhile isBlank) := by
  intro x hx
  exact isBlank_iff.1 (List.all_eq_true.1 List.all_takeWhile x hx)

theorem solid_of_rest {c : Cursor} {x : Char} {r : List Char} (h : c.rest = x :: r)
    (hx : isBlank x = false) : c.Solid := by
  intro y hy
  rw [h] at hy
  cases hy
  exact hx

theorem solid_skipBlank (c : Cursor) : c.skipBlank.Solid := by
  intro x hx
  rw [rest_skipBlank] at hx
  have h := List.head?_dropWhile_not isBlank c.rest
  rw [hx] at h
  simpa using h

/-- What `skipBlank` does: it passes blanks, and none stands next after it. -/
theorem exists_past_skipBlank (c : Cursor) : ∃ b, Blanks b ∧ c.Past b c.skipBlank :=
  ⟨_, blanks_takeWhile c.rest, c.past_takeWhile isBlank⟩

theorem Past.skipBlank_eq {c d : Cursor} {b : List Char} (h : c.Past b d) (hb : Blanks b)
    (hd : d.Solid) : c.skipBlank = d := by
  rw [skipBlank, h.takeWhile_eq (fun x hx => isBlank_iff.2 (hb x hx)) hd]
  exact h.drop_eq

/-- What stands next after the blanks that come first. -/
theorem past_of_skipBlank {c : Cursor} {x : Char} {r : List Char} (h : c.skipBlank.rest = x :: r) :
    ∃ b, Blanks b ∧ c.Past (b ++ [x]) c.skipBlank.advance := by
  obtain ⟨b, hb, hp⟩ := c.exists_past_skipBlank
  exact ⟨b, hb, hp.trans (past_advance h)⟩

/-- Blanks and then a character that is none: the character stands next after `skipBlank`. -/
theorem rest_skipBlank_of_past {c d : Cursor} {b t : List Char} {x : Char}
    (h : c.Past (b ++ x :: t) d) (hb : Blanks b) (hx : isBlank x = false) :
    c.skipBlank.rest = x :: (t ++ d.rest) ∧ c.skipBlank.advance.Past t d := by
  obtain ⟨e, hbe, hxe⟩ := past_append_iff.1 h
  rw [hbe.skipBlank_eq hb (solid_of_rest hxe.rest hx)]
  obtain ⟨f, hf, ht⟩ := past_cons_iff.1 hxe
  rw [hf.advance_eq]
  exact ⟨hxe.rest, ht⟩

end Cursor

end Json
end GrammarModule
