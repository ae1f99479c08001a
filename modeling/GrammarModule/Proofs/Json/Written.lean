import GrammarModule.Json.Value
import GrammarModule.Proofs.Json.Escape

/-!
# GrammarModule.Proofs.Json.Written

Written texts belong to the grammar: a written string is a literal for its text
(`textLiteral_literal`), texts joined by commas have the punctuation of `Items` (`items_joined`),
and so have compact lists and objects (`isList_compact`, `objectText_compact`).
-/

namespace GrammarModule
namespace Json

open Value

/-! ## Strings -/

theorem charText_escapedChar (c : Char) : CharText c (escapedChar c) := by
  unfold escapedChar
  split
  · exact .short (by decide)
  · exact .short (by decide)
  · exact .short (by decide)
  · exact .short (by decide)
  · exact .short (by decide)
  · exact .short (by decide)
  · exact .short (by decide)
  · next hq hb _ _ _ _ _ =>
    split
    · next hc =>
      have hlt : c.toNat < 32 := by
        rw [Char.lt_def, UInt32.lt_iff_toNat_lt, Char.toNat_val] at hc
        exact hc
      have hunit : HexUnit ['0', '0', Nat.digitChar (c.toNat / 16), Nat.digitChar (c.toNat % 16)]
          (((0 * 16 + 0) * 16 + c.toNat / 16) * 16 + c.toNat % 16) :=
        .mk ⟨by decide, .inl rfl⟩ ⟨by decide, .inl rfl⟩ ⟨by omega, .inl rfl⟩ ⟨by omega, .inl rfl⟩
      have hval : ((0 * 16 + 0) * 16 + c.toNat / 16) * 16 + c.toNat % 16 = c.toNat := by omega
      rw [hval] at hunit
      exact .unit hunit
    · next hc => exact .plain ⟨hq, hb, Char.not_lt.1 hc⟩

theorem charsText_escaped (cs : List Char) : CharsText cs (cs.flatMap escapedChar) := by
  induction cs with
  | nil => exact .nil
  | cons c cs ih =>
    rw [List.flatMap_cons]
    exact .cons (charText_escapedChar c) ih

theorem textLiteral_literal (s : String) : TextLiteral s (literal s) :=
  ⟨_, charsText_escaped s.toList, rfl⟩

/-! ## Punctuation -/

/-- Texts with a comma before each but the first. -/
def joined : List (List Char) → List Char
  | [] => []
  | [t] => t
  | t :: ts => t ++ ',' :: joined ts

section

variable {close : Char} {b b' : List Char} (hb : Blanks b) (hb' : Blanks b')
include hb hb'

theorem items_joined_next (t : List Char) (ts : List (List Char)) :
    Items close false (t :: ts) (',' :: (joined ((t :: ts).map (b ++ ·)) ++ (b' ++ [close]))) := by
  have hlead : Lead false (',' :: b) := .comma (b := []) blanks_nil hb
  induction ts generalizing t with
  | nil =>
    have h : Items close false [t] ((',' :: b) ++ (t ++ (b' ++ [close]))) :=
      .item hlead (.close hb')
    simpa [joined] using h
  | cons u us ih =>
    have h : Items close false (t :: u :: us) ((',' :: b) ++
        (t ++ (',' :: (joined ((u :: us).map (b ++ ·)) ++ (b' ++ [close]))))) := .item hlead (ih u)
    simpa [joined] using h

/-- Items with blanks before each, and before the closing character. -/
theorem items_joined (close : Char) (ts : List (List Char)) :
    Items close true ts (joined (ts.map (b ++ ·)) ++ (b' ++ [close])) := by
  match ts with
  | [] => exact .close hb'
  | [t] =>
    have h : Items close true [t] (b ++ (t ++ (b' ++ [close]))) := .item (.first hb) (.close hb')
    simpa [joined] using h
  | t :: u :: us =>
    have h : Items close true (t :: u :: us)
        (b ++ (t ++ (',' :: (joined ((u :: us).map (b ++ ·)) ++ (b' ++ [close]))))) :=
      .item (.first hb) (items_joined_next hb hb' u us)
    simpa [joined] using h

end

theorem items_compact (close : Char) (ts : List (List Char)) :
    Items close true ts (joined ts ++ [close]) := by
  have h : Items close true ts (joined (ts.map ([] ++ ·)) ++ ([] ++ [close])) :=
    items_joined blanks_nil blanks_nil close ts
  simpa using h

theorem compactItems_eq (values : List Value) :
    compactItems values = joined (values.map compact) := by
  match values with
  | [] => rw [compactItems]; rfl
  | [v] => rw [compactItems]; rfl
  | v :: w :: rest =>
    rw [compactItems, compactItems_eq (w :: rest)]
    · rfl
    · simp

theorem compactMembers_eq (members : List (String × Value)) :
    compactMembers members =
      joined (members.map fun m => literal m.1 ++ ':' :: m.2.compact) := by
  match members with
  | [] => rw [compactMembers]; rfl
  | [(key, value)] => rw [compactMembers]; rfl
  | (key, value) :: m :: rest =>
    rw [compactMembers, compactMembers_eq (m :: rest)]
    · simp [joined]
    · simp

theorem isList_compact (values : List Value) :
    IsList (values.map compact) (Value.list values).compact := by
  rw [compact, compactItems_eq]
  exact ⟨_, rfl, items_compact ']' _⟩

theorem objectText_compact (members : List (String × Value)) :
    ObjectText (members.map fun m => (m.1, m.2.compact)) (Value.object members).compact := by
  refine ⟨members.map fun m => literal m.1 ++ ':' :: m.2.compact, ?_, ?_⟩
  · rw [List.forall₂_map_left_iff, List.forall₂_map_right_iff, List.forall₂_same]
    exact fun m _ => ⟨_, textLiteral_literal m.1, [], [], blanks_nil, blanks_nil, rfl⟩
  · rw [compact, compactMembers_eq]
    exact ⟨_, rfl, items_compact '\x7d' _⟩

end Json
end GrammarModule
