import GrammarModule.Json.StringLiteral
import GrammarModule.Proofs.Json.Past

/-!
# GrammarModule.Proofs.Json.Escape

The escapes of string literals. Reading one accepts exactly the texts of `CharText` that begin
with a backslash, and gives the character and the length (`readEscape_sound`,
`readEscape_of_past`); skipping one accepts exactly the forms `EscapeForm`.
-/

namespace GrammarModule
namespace Json

/-! ## Hexadecimal digits -/

theorem hexValue?_digitChar :
    ∀ n < 16, hexValue? (Nat.digitChar n) = some n ∧
      hexValue? (Nat.digitChar n).toUpper = some n := by
  decide

/-- The digits among the characters of seven bits. -/
theorem hexDigit_of_lt : ∀ k < 128, ∀ n ∈ hexValue? (Char.ofNat k),
    n < 16 ∧ (Char.ofNat k = Nat.digitChar n ∨ Char.ofNat k = (Nat.digitChar n).toUpper) := by
  decide +kernel

theorem toNat_lt_of_hexValue? {c : Char} {n : Nat} (h : hexValue? c = some n) :
    c.toNat < 128 := by
  simp only [hexValue?, Char.le_def, UInt32.le_iff_toNat_le, Char.toNat_val, Char.reduceToNat] at h
  split at h
  · omega
  · split at h
    · omega
    · split at h
      · omega
      · cases h

theorem hexValue?_eq_some_iff {c : Char} {n : Nat} : hexValue? c = some n ↔ HexDigit c n := by
  constructor
  · intro h
    have hc := hexDigit_of_lt c.toNat (toNat_lt_of_hexValue? h) n
    rw [Char.ofNat_toNat] at hc
    exact hc h
  · rintro ⟨hn, rfl | rfl⟩
    · exact (hexValue?_digitChar n hn).1
    · exact (hexValue?_digitChar n hn).2

theorem HexDigit.lt_sixteen {c : Char} {n : Nat} (h : HexDigit c n) : n < 16 := h.1

theorem HexDigit.utf8Size {c : Char} {n : Nat} (h : HexDigit c n) : c.utf8Size = 1 := by
  have hc := toNat_lt_of_hexValue? (hexValue?_eq_some_iff.2 h)
  rw [Char.utf8Size_eq_one_iff, UInt32.le_iff_toNat_le, Char.toNat_val]
  change c.toNat ≤ 127
  omega

theorem HexUnit.length {t : List Char} {n : Nat} (h : HexUnit t n) : t.length = 4 := by
  cases h
  rfl

theorem HexUnit.lt {t : List Char} {n : Nat} (h : HexUnit t n) : n < 0x10000 := by
  cases h with
  | mk ha hb hc hd =>
    have := ha.lt_sixteen
    have := hb.lt_sixteen
    have := hc.lt_sixteen
    have := hd.lt_sixteen
    omega

theorem byteLength_cons (x : Char) (t : List Char) :
    byteLength (x :: t) = x.utf8Size + byteLength t := by
  have hfrom : ∀ (t : List Char) (n : Nat),
      t.foldl (fun count c => count + c.utf8Size) n = n + byteLength t := by
    intro t
    induction t with
    | nil => simp [byteLength]
    | cons y t ih =>
      intro n
      rw [byteLength, List.foldl_cons, List.foldl_cons, ih, ih]
      omega
  rw [byteLength, List.foldl_cons, hfrom]
  omega

theorem HexUnit.byteLength {t : List Char} {n : Nat} (h : HexUnit t n) : byteLength t = 4 := by
  cases h with
  | mk ha hb hc hd =>
    simp [Json.byteLength, ha.utf8Size, hb.utf8Size, hc.utf8Size, hd.utf8Size]

theorem unitOfDigits?_eq_some_iff {t : List Char} {n : Nat} :
    unitOfDigits? t = some n ↔ HexUnit t n := by
  constructor
  · intro h
    match t, h with
    | [a, b, c, d], h =>
      simp only [unitOfDigits?, Option.bind_eq_bind, Option.bind_eq_some_iff, Option.pure_def,
        Option.some.injEq] at h
      obtain ⟨i, hi, j, hj, k, hk, l, hl, rfl⟩ := h
      exact .mk (hexValue?_eq_some_iff.1 hi) (hexValue?_eq_some_iff.1 hj)
        (hexValue?_eq_some_iff.1 hk) (hexValue?_eq_some_iff.1 hl)
  · rintro ⟨ha, hb, hc, hd⟩
    simp [unitOfDigits?, hexValue?_eq_some_iff.2 ha, hexValue?_eq_some_iff.2 hb,
      hexValue?_eq_some_iff.2 hc, hexValue?_eq_some_iff.2 hd]

theorem readUnit_eq_ok_iff {c : Cursor} {n : Nat} :
    readUnit c = .ok n ↔ HexUnit (c.rest.take 4) n := by
  rw [← unitOfDigits?_eq_some_iff, readUnit]
  constructor
  · intro h
    split at h
    · cases h
    · split at h
      · cases h; assumption
      · cases h
  · intro h
    rw [if_neg (by rw [(unitOfDigits?_eq_some_iff.1 h).byteLength]; omega), h]

/-- A unit that is read is the text of the next four characters. -/
theorem past_of_readUnit {c : Cursor} {n : Nat} (h : readUnit c = .ok n) :
    ∃ t, HexUnit t n ∧ c.Past t (c.drop 4) :=
  ⟨_, readUnit_eq_ok_iff.1 h, c.past_drop 4⟩

theorem readUnit_of_past {c d : Cursor} {t : List Char} {n : Nat} (h : HexUnit t n)
    (hp : c.Past t d) : readUnit c = .ok n ∧ c.drop 4 = d := by
  have ht : c.rest.take 4 = t := by rw [hp.rest, ← h.length, List.take_left]
  refine ⟨readUnit_eq_ok_iff.2 (ht ▸ h), ?_⟩
  rw [← h.length]
  exact hp.drop_eq

/-! ## Escapes -/

theorem simpleEscape?_eq_some_iff {e c : Char} :
    simpleEscape? e = some c ↔ (e, c) ∈ shortEscapes := by
  constructor
  · intro h
    unfold simpleEscape? at h
    split at h <;> cases h <;> decide
  · intro h
    simp only [shortEscapes, List.mem_cons, Prod.mk.injEq, List.not_mem_nil, or_false] at h
    rcases h with ⟨rfl, rfl⟩ | ⟨rfl, rfl⟩ | ⟨rfl, rfl⟩ | ⟨rfl, rfl⟩ | ⟨rfl, rfl⟩ | ⟨rfl, rfl⟩ |
      ⟨rfl, rfl⟩ | ⟨rfl, rfl⟩ <;> rfl

theorem simpleEscape?_u : simpleEscape? 'u' = none := by decide

theorem expectInEscape_eq_ok_iff {c d : Cursor} {wanted : Char} :
    expectInEscape c wanted = .ok d ↔ c.Past [wanted] d := by
  rw [Cursor.past_advance_iff, expectInEscape]
  cases hc : c.rest with
  | nil => simp [Cursor.failHere]
  | cons next rest =>
    by_cases hn : next = wanted
    · simp [hn, eq_comm]
    · simp [hn, Cursor.failNext]

theorem isLowSurrogate_iff {n : Nat} : isLowSurrogate n = true ↔ 0xdc00 ≤ n ∧ n ≤ 0xdfff := by
  simp [isLowSurrogate]

theorem isHighSurrogate_iff {n : Nat} : isHighSurrogate n = true ↔ 0xd800 ≤ n ∧ n ≤ 0xdbff := by
  simp [isHighSurrogate]

theorem toNat_ofNat_of_not_surrogate {n : Nat} (h : n < 0x10000)
    (hlow : isLowSurrogate n = false) (hhigh : isHighSurrogate n = false) :
    (Char.ofNat n).toNat = n := by
  rw [← Bool.not_eq_true, isLowSurrogate_iff] at hlow
  rw [← Bool.not_eq_true, isHighSurrogate_iff] at hhigh
  have hv : n.isValidChar := by
    simp only [Nat.isValidChar]
    omega
  rw [Char.ofNat, dif_pos hv]
  rfl

theorem toNat_pairedChar {high low : Nat} (hhigh : 0xd800 ≤ high ∧ high ≤ 0xdbff)
    (hlow : 0xdc00 ≤ low ∧ low ≤ 0xdfff) :
    (pairedChar high low).toNat = 0x10000 + (high - 0xd800) * 0x400 + (low - 0xdc00) := by
  have hv : ((high - 0xd800) * 0x400 + (low - 0xdc00) + 0x10000).isValidChar := by
    simp only [Nat.isValidChar]
    omega
  rw [pairedChar, Char.ofNat, dif_pos hv]
  change (high - 0xd800) * 0x400 + (low - 0xdc00) + 0x10000 = _
  omega

/-- A character's own number is no surrogate. -/
theorem not_surrogate_toNat (c : Char) :
    isLowSurrogate c.toNat = false ∧ isHighSurrogate c.toNat = false := by
  have hv : c.toNat < 0xd800 ∨ 0xdfff < c.toNat ∧ c.toNat < 0x110000 := c.valid
  constructor
  · rw [← Bool.not_eq_true, isLowSurrogate_iff]
    omega
  · rw [← Bool.not_eq_true, isHighSurrogate_iff]
    omega

theorem readEscape_short {c : Cursor} {e : Char} {r : List Char} (hc : c.rest = e :: r)
    (hu : e ≠ 'u') : readEscape c =
      match simpleEscape? e with
      | some x => .ok (x, 1)
      | none => c.failNext .invalidEscape := by
  unfold readEscape
  split
  · next hnil => rw [hnil] at hc; cases hc
  · next hcons => rw [hcons] at hc; cases hc; exact absurd rfl hu
  · next hcons => rw [hcons] at hc; cases hc; rfl

/-- The text that an escape passes after its backslash, and the character that it denotes. -/
theorem readEscape_sound {c : Cursor} {x : Char} {n : Nat} (h : readEscape c = .ok (x, n)) :
    ∃ t, CharText x ('\\' :: t) ∧ t.length = n ∧ c.Past t (c.drop n) := by
  -- the cursor after `n` characters is the one after any text of that length
  suffices hd : ∃ t d, CharText x ('\\' :: t) ∧ t.length = n ∧ c.Past t d by
    obtain ⟨t, d, ht, hn, hp⟩ := hd
    refine ⟨t, ht, hn, ?_⟩
    rw [← hn, hp.drop_eq]
    exact hp
  cases hc : c.rest with
  | nil => simp [readEscape, hc, Cursor.failHere] at h
  | cons e r =>
    have hadv := Cursor.past_advance hc
    by_cases he : e = 'u'
    · subst he
      simp only [readEscape, hc] at h
      obtain ⟨unit, hunit, h⟩ := bind_eq_ok_iff.1 h
      obtain ⟨s, hs, hps⟩ := past_of_readUnit hunit
      split at h
      · cases h
      · next hlow =>
        split at h
        · next hhigh =>
          obtain ⟨c1, h1, h⟩ := bind_eq_ok_iff.1 h
          obtain ⟨c2, h2, h⟩ := bind_eq_ok_iff.1 h
          obtain ⟨low, hl, h⟩ := bind_eq_ok_iff.1 h
          obtain ⟨t, ht, hpt⟩ := past_of_readUnit hl
          split at h
          · next hlow' =>
            simp only [Except.ok.injEq, Prod.mk.injEq] at h
            rw [← h.1, ← h.2]
            rw [isHighSurrogate_iff] at hhigh
            rw [isLowSurrogate_iff] at hlow'
            refine ⟨_, _, .pair hs ht hhigh hlow' (toNat_pairedChar hhigh hlow'), ?_,
              hadv.trans (hps.trans ((expectInEscape_eq_ok_iff.1 h1).trans
                ((expectInEscape_eq_ok_iff.1 h2).trans hpt)))⟩
            simp [hs.length, ht.length]
          · cases h
        · next hhigh =>
          simp only [Except.ok.injEq, Prod.mk.injEq] at h
          have hx := toNat_ofNat_of_not_surrogate hs.lt (Bool.eq_false_iff.2 hlow)
            (Bool.eq_false_iff.2 hhigh)
          rw [← h.1, ← h.2]
          exact ⟨'u' :: s, _, .unit (hx.symm ▸ hs), by simp [hs.length], hadv.trans hps⟩
    · rw [readEscape_short hc he] at h
      split at h
      · next y hy =>
        cases h
        exact ⟨[e], _, .short (simpleEscape?_eq_some_iff.1 hy), rfl, hadv⟩
      · cases h

theorem readEscape_of_past {c d : Cursor} {x : Char} {t : List Char}
    (h : CharText x ('\\' :: t)) (hp : c.Past t d) : readEscape c = .ok (x, t.length) := by
  cases h with
  | plain h => exact absurd rfl h.2.1
  | short h =>
    next e =>
    have hc := hp.rest
    have he := simpleEscape?_eq_some_iff.2 h
    have hu : e ≠ 'u' := by
      rintro rfl
      rw [simpleEscape?_u] at he
      cases he
    rw [readEscape_short hc hu, he]
    rfl
  | unit h =>
    next s =>
    obtain ⟨c1, h1, h2⟩ := Cursor.past_cons_iff.1 hp
    obtain ⟨hunit, -⟩ := readUnit_of_past h h2
    rw [← h1.advance_eq] at hunit
    obtain ⟨hlow, hhigh⟩ := not_surrogate_toNat x
    unfold readEscape
    rw [h1.rest]
    simp only [List.cons_append, bind, Except.bind, hunit, hlow, hhigh, Bool.false_eq_true,
      if_false, Char.ofNat_toNat, List.length_cons, h.length]
  | pair hs ht hhigh hlow hx =>
    next s t high low =>
    obtain ⟨c1, h1, hp1⟩ := Cursor.past_cons_iff.1 hp
    obtain ⟨c2, h2, hp2⟩ := Cursor.past_append_iff.1 hp1
    obtain ⟨c3, h3, hp3⟩ := Cursor.past_cons_iff.1 hp2
    obtain ⟨c4, h4, h5⟩ := Cursor.past_cons_iff.1 hp3
    obtain ⟨hunit, hdrop⟩ := readUnit_of_past hs h2
    rw [← h1.advance_eq] at hunit hdrop
    obtain ⟨hunit', -⟩ := readUnit_of_past ht h5
    have hnot : isLowSurrogate high = false := by
      rw [← Bool.not_eq_true, isLowSurrogate_iff]
      omega
    have hchar : pairedChar high low = x := by
      rw [← Char.toNat_inj, toNat_pairedChar hhigh hlow, hx]
    unfold readEscape
    rw [h1.rest]
    simp only [List.cons_append, bind, Except.bind, hunit, hdrop, hnot, isHighSurrogate_iff.2 hhigh,
      expectInEscape_eq_ok_iff.2 h3, expectInEscape_eq_ok_iff.2 h4, hunit',
      isLowSurrogate_iff.2 hlow, Bool.false_eq_true, if_false, if_true, hchar]
    simp [hs.length, ht.length]

theorem skipEscape_short {c : Cursor} {e : Char} {r : List Char} (hc : c.rest = e :: r)
    (hu : e ≠ 'u') : skipEscape c =
      if (simpleEscape? e).isSome then .ok 1 else c.failNext .invalidEscape := by
  unfold skipEscape
  split
  · next hnil => rw [hnil] at hc; cases hc
  · next hcons => rw [hcons] at hc; cases hc; exact absurd rfl hu
  · next hcons => rw [hcons] at hc; cases hc; rfl

theorem skipEscape_sound {c : Cursor} {n : Nat} (h : skipEscape c = .ok n) :
    ∃ t, EscapeForm t ∧ t.length = n ∧ c.Past t (c.drop n) := by
  suffices hd : ∃ t d, EscapeForm t ∧ t.length = n ∧ c.Past t d by
    obtain ⟨t, d, ht, hn, hp⟩ := hd
    refine ⟨t, ht, hn, ?_⟩
    rw [← hn, hp.drop_eq]
    exact hp
  cases hc : c.rest with
  | nil => simp [skipEscape, hc, Cursor.failHere] at h
  | cons e r =>
    have hadv := Cursor.past_advance hc
    by_cases he : e = 'u'
    · subst he
      simp only [skipEscape, hc] at h
      obtain ⟨unit, hunit, h⟩ := bind_eq_ok_iff.1 h
      obtain ⟨s, hs, hps⟩ := past_of_readUnit hunit
      cases h
      exact ⟨_, _, .unit hs, by simp [hs.length], hadv.trans hps⟩
    · rw [skipEscape_short hc he] at h
      split at h
      · next hy =>
        cases h
        obtain ⟨y, hy⟩ := Option.isSome_iff_exists.1 hy
        exact ⟨[e], _, .short (simpleEscape?_eq_some_iff.1 hy), rfl, hadv⟩
      · cases h

theorem skipEscape_of_past {c d : Cursor} {t : List Char} (h : EscapeForm t) (hp : c.Past t d) :
    skipEscape c = .ok t.length := by
  cases h with
  | short h =>
    next e x =>
    have he := simpleEscape?_eq_some_iff.2 h
    have hu : e ≠ 'u' := by
      rintro rfl
      rw [simpleEscape?_u] at he
      cases he
    rw [skipEscape_short hp.rest hu, he]
    rfl
  | unit h =>
    next s n =>
    obtain ⟨c1, h1, h2⟩ := Cursor.past_cons_iff.1 hp
    obtain ⟨hunit, -⟩ := readUnit_of_past h h2
    rw [← h1.advance_eq] at hunit
    unfold skipEscape
    rw [h1.rest]
    simp only [List.cons_append, bind, Except.bind, hunit, List.length_cons, h.length]

end Json
end GrammarModule
