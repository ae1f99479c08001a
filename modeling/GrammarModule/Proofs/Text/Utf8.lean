import GrammarModule.Text.Utf8
import Mathlib.Tactic.SplitIfs

/-!
# GrammarModule.Proofs.Text.Utf8

Bytes that encode a text, and which text. `Sequence` lists the well-formed byte sequences;
`sequence` finds each of them (`sequence_append`) and nothing else (`exists_of_sequence`), and each
character has one (`exists_sequence`). So bytes are decoded exactly when they are the bytes of a
text (`decode?_eq_some_iff`), and what stands before an encoded text decides alone whether the whole
is one (`decode?_append_encode`).
-/

namespace GrammarModule
namespace Text

variable {lead b b' b'' : UInt8} {tail rest : List UInt8} {c : Char} {n v : Nat}

/-! ## Well-formed sequences -/

theorem isContinuation_iff : isContinuation b = true ↔ 0x80 ≤ b.toNat ∧ b.toNat ≤ 0xbf := by
  simp [isContinuation, UInt8.le_iff_toNat_le]

theorem mayFollow_iff : mayFollow lead b = true ↔ (0x80 ≤ b.toNat ∧ b.toNat ≤ 0xbf) ∧
    (lead.toNat = 0xe0 → 0xa0 ≤ b.toNat) ∧ (lead.toNat = 0xed → b.toNat ≤ 0x9f) ∧
    (lead.toNat = 0xf0 → 0x90 ≤ b.toNat) ∧ (lead.toNat = 0xf4 → b.toNat ≤ 0x8f) := by
  have hlead (k : UInt8) : lead = k ↔ lead.toNat = k.toNat := UInt8.toNat_inj.symm
  simp only [mayFollow, isContinuation, hlead, UInt8.le_iff_toNat_le, UInt8.reduceToNat]
  split_ifs <;> simp only [Bool.and_eq_true, decide_eq_true_eq] <;> omega

/-- A lead byte, the bytes after it, and the code point that they denote. -/
inductive Sequence : UInt8 → List UInt8 → Nat → Prop
  | one {lead : UInt8} {v : Nat} (h : lead.toNat < 0x80) (hv : v = lead.toNat) : Sequence lead [] v
  | two {lead b : UInt8} {v : Nat} (h : 0xc2 ≤ lead.toNat) (h' : lead.toNat < 0xe0)
      (hb : isContinuation b = true)
      (hv : v = (lead.toNat - 0xc0) * 0x40 + continuationBits b) : Sequence lead [b] v
  | three {lead b b' : UInt8} {v : Nat} (h : 0xe0 ≤ lead.toNat) (h' : lead.toNat < 0xf0)
      (hb : mayFollow lead b = true) (hb' : isContinuation b' = true)
      (hv : v = ((lead.toNat - 0xe0) * 0x40 + continuationBits b) * 0x40 + continuationBits b') :
      Sequence lead [b, b'] v
  | four {lead b b' b'' : UInt8} {v : Nat} (h : 0xf0 ≤ lead.toNat) (h' : lead.toNat < 0xf5)
      (hb : mayFollow lead b = true) (hb' : isContinuation b' = true)
      (hb'' : isContinuation b'' = true)
      (hv : v = (((lead.toNat - 0xf0) * 0x40 + continuationBits b) * 0x40 +
        continuationBits b') * 0x40 + continuationBits b'') : Sequence lead [b, b', b''] v

theorem sequence_append (h : Sequence lead tail v) (rest : List UInt8) :
    sequence lead (tail ++ rest) = (some (Char.ofNat v), tail.length) := by
  have hlt (k : UInt8) : lead < k ↔ lead.toNat < k.toNat := UInt8.lt_iff_toNat_lt
  unfold sequence
  simp only [hlt, UInt8.reduceToNat]
  cases h with
  | one h hv =>
    rw [if_pos h, hv]
    rfl
  | two h h' hb hv =>
    rw [if_neg (by omega), if_neg (by omega), if_pos h']
    simp [hb, hv]
  | three h h' hb hb' hv =>
    rw [if_neg (by omega), if_neg (by omega), if_neg (by omega), if_pos h']
    simp [hb, hb', hv]
  | four h h' hb hb' hb'' hv =>
    rw [if_neg (by omega), if_neg (by omega), if_neg (by omega), if_neg (by omega), if_pos h']
    simp [hb, hb', hb'', hv]

theorem exists_of_sequence (h : sequence lead rest = (some c, n)) :
    ∃ tail rest' v, Sequence lead tail v ∧ rest = tail ++ rest' ∧ n = tail.length ∧
      c = Char.ofNat v := by
  have hlt (k : UInt8) : lead < k ↔ lead.toNat < k.toNat := UInt8.lt_iff_toNat_lt
  unfold sequence at h
  simp only [hlt, UInt8.reduceToNat] at h
  split_ifs at h with h₁ h₂ h₃ h₄ h₅
  · simp only [Prod.mk.injEq, Option.some.injEq] at h
    exact ⟨[], rest, _, .one h₁ rfl, rfl, h.2.symm, h.1.symm⟩
  · simp at h
  · match rest with
    | [] => simp at h
    | b :: rest =>
      simp only at h
      split_ifs at h with hb
      · simp only [Prod.mk.injEq, Option.some.injEq] at h
        exact ⟨[b], rest, _, .two (by omega) h₃ hb rfl, rfl, h.2.symm, h.1.symm⟩
      · simp at h
  · match rest with
    | [] | [b] => simp at h
    | b :: b' :: rest =>
      simp only at h
      split_ifs at h with hb hb'
      · simp at h
      · simp at h
      · simp only [Prod.mk.injEq, Option.some.injEq] at h
        exact ⟨[b, b'], rest, _, .three (by omega) h₄ (by simpa using hb) (by simpa using hb') rfl,
          rfl, h.2.symm, h.1.symm⟩
  · match rest with
    | [] | [b] | [b, b'] => simp at h
    | b :: b' :: b'' :: rest =>
      simp only at h
      split_ifs at h with hb hb' hb''
      · simp at h
      · simp at h
      · simp at h
      · simp only [Prod.mk.injEq, Option.some.injEq] at h
        exact ⟨[b, b', b''], rest, _, .four (by omega) h₅ (by simpa using hb) (by simpa using hb')
          (by simpa using hb'') rfl, rfl, h.2.symm, h.1.symm⟩
  · simp at h

/-! ## The sequence of a character -/

theorem isValidChar_iff : v.isValidChar ↔ v < 0xd800 ∨ 0xdfff < v ∧ v < 0x110000 := Iff.rfl

theorem val_ofNat (h : v.isValidChar) : (Char.ofNat v).val.toNat = v := by
  rw [Char.ofNat, dif_pos h]
  rfl

theorem ofNat_eq {k : Nat} (h : k = b.toNat) : UInt8.ofNat k = b := by
  rw [h, UInt8.ofNat_toNat]

theorem continuationBits_eq (b : UInt8) : continuationBits b = b.toNat - 0x80 := rfl

theorem Sequence.encode (h : Sequence lead tail v) :
    String.utf8EncodeChar (Char.ofNat v) = lead :: tail := by
  cases h with
  | one h hv =>
    have hvalid : v.isValidChar := isValidChar_iff.2 (by omega)
    simp only [String.utf8EncodeChar, val_ofNat hvalid]
    rw [if_pos (by omega), ofNat_eq hv]
  | @two b _ h h' hb hv =>
    have hrange := isContinuation_iff.1 hb
    have hbits := continuationBits_eq b
    have hvalid : v.isValidChar := isValidChar_iff.2 (by omega)
    simp only [String.utf8EncodeChar, val_ofNat hvalid]
    rw [if_neg (by omega), if_pos (by omega), ofNat_eq (b := lead) (by omega),
      ofNat_eq (b := b) (by omega)]
  | @three b b' _ h h' hb hb' hv =>
    have hrange := mayFollow_iff.1 hb
    have hrange' := isContinuation_iff.1 hb'
    have hbits := continuationBits_eq b
    have hbits' := continuationBits_eq b'
    have hvalid : v.isValidChar := isValidChar_iff.2 (by omega)
    simp only [String.utf8EncodeChar, val_ofNat hvalid]
    rw [if_neg (by omega), if_neg (by omega), if_pos (by omega), ofNat_eq (b := lead) (by omega),
      ofNat_eq (b := b) (by omega), ofNat_eq (b := b') (by omega)]
  | @four b b' b'' _ h h' hb hb' hb'' hv =>
    have hrange := mayFollow_iff.1 hb
    have hrange' := isContinuation_iff.1 hb'
    have hrange'' := isContinuation_iff.1 hb''
    have hbits := continuationBits_eq b
    have hbits' := continuationBits_eq b'
    have hbits'' := continuationBits_eq b''
    have hvalid : v.isValidChar := isValidChar_iff.2 (by omega)
    simp only [String.utf8EncodeChar, val_ofNat hvalid]
    rw [if_neg (by omega), if_neg (by omega), if_neg (by omega), ofNat_eq (b := lead) (by omega),
      ofNat_eq (b := b) (by omega), ofNat_eq (b := b') (by omega), ofNat_eq (b := b'') (by omega)]

/-- A byte of a known value. -/
theorem exists_byte {k : Nat} (h : k < 0x100) :
    ∃ b : UInt8, UInt8.ofNat k = b ∧ b.toNat = k ∧ continuationBits b = k - 0x80 := by
  have hk : (UInt8.ofNat k).toNat = k := by rw [UInt8.toNat_ofNat', Nat.mod_eq_of_lt h]
  exact ⟨_, rfl, hk, by rw [continuationBits_eq, hk]⟩

theorem exists_sequence (c : Char) : ∃ lead tail, Sequence lead tail c.toNat ∧
    String.utf8EncodeChar c = lead :: tail := by
  have hvalid : c.toNat < 0xd800 ∨ 0xdfff < c.toNat ∧ c.toNat < 0x110000 := c.valid
  have hval : c.val.toNat = c.toNat := rfl
  simp only [String.utf8EncodeChar, hval]
  generalize c.toNat = v at hvalid
  split_ifs with h₁ h₂ h₃
  · obtain ⟨lead, hlead, hl, -⟩ := exists_byte (k := v) (by omega)
    exact ⟨lead, [], .one (by omega) hl.symm, by rw [hlead]⟩
  · obtain ⟨lead, hlead, hl, -⟩ := exists_byte (k := v / 64 % 32 + 192) (by omega)
    obtain ⟨b, hb, hr, hbits⟩ := exists_byte (k := v % 64 + 128) (by omega)
    rw [hlead, hb]
    exact ⟨lead, [b], .two (by omega) (by omega) (isContinuation_iff.2 (by omega)) (by omega), rfl⟩
  · obtain ⟨lead, hlead, hl, -⟩ := exists_byte (k := v / 4096 % 16 + 224) (by omega)
    obtain ⟨b, hb, hr, hbits⟩ := exists_byte (k := v / 64 % 64 + 128) (by omega)
    obtain ⟨b', hb', hr', hbits'⟩ := exists_byte (k := v % 64 + 128) (by omega)
    rw [hlead, hb, hb']
    exact ⟨lead, [b, b'], .three (by omega) (by omega) (mayFollow_iff.2 (by omega))
      (isContinuation_iff.2 (by omega)) (by omega), rfl⟩
  · obtain ⟨lead, hlead, hl, -⟩ := exists_byte (k := v / 262144 % 8 + 240) (by omega)
    obtain ⟨b, hb, hr, hbits⟩ := exists_byte (k := v / 4096 % 64 + 128) (by omega)
    obtain ⟨b', hb', hr', hbits'⟩ := exists_byte (k := v / 64 % 64 + 128) (by omega)
    obtain ⟨b'', hb'', hr'', hbits''⟩ := exists_byte (k := v % 64 + 128) (by omega)
    rw [hlead, hb, hb', hb'']
    exact ⟨lead, [b, b', b''], .four (by omega) (by omega) (mayFollow_iff.2 (by omega))
      (isContinuation_iff.2 (by omega)) (isContinuation_iff.2 (by omega)) (by omega), rfl⟩

/-! ## Texts -/

variable {bytes : List UInt8} {text : List Char}

theorem encode_cons (c : Char) (text : List Char) :
    encode (c :: text) = String.utf8EncodeChar c ++ encode text := List.flatMap_cons

theorem encode_append (s t : List Char) : encode (s ++ t) = encode s ++ encode t :=
  List.flatMap_append

/-- Every character has at least one byte. -/
theorem length_le_encode (text : List Char) : text.length ≤ (encode text).length := by
  induction text with
  | nil => exact Nat.le_refl 0
  | cons c text ih =>
    obtain ⟨lead, tail, -, hc⟩ := exists_sequence c
    rw [encode_cons, hc, List.length_append, List.length_cons, List.length_cons]
    omega

theorem decode?_encode (text : List Char) : decode? (encode text) = some text := by
  induction text with
  | nil => rw [encode, List.flatMap_nil, decode?]
  | cons c text ih =>
    obtain ⟨lead, tail, hs, he⟩ := exists_sequence c
    rw [encode_cons, he, List.cons_append, decode?, sequence_append hs]
    simp only [List.drop_left, ih, Char.ofNat_toNat, Option.map_some]

theorem encode_of_decode? (h : decode? bytes = some text) : bytes = encode text := by
  fun_induction decode? bytes generalizing text with
  | case1 =>
    cases h
    rfl
  | case2 lead rest c count hs ih =>
    obtain ⟨text, htext, rfl⟩ := Option.map_eq_some_iff.1 h
    obtain ⟨tail, rest', v, hseq, rfl, rfl, rfl⟩ := exists_of_sequence hs
    rw [List.drop_left] at ih htext
    rw [encode_cons, hseq.encode, ← ih htext, List.cons_append]
  | case3 => cases h

/-- Bytes are decoded exactly when they are those of a text, and to that text. -/
theorem decode?_eq_some_iff : decode? bytes = some text ↔ bytes = encode text := by
  constructor
  · exact encode_of_decode?
  · rintro rfl
    exact decode?_encode text

theorem encode_inj {s t : List Char} : encode s = encode t ↔ s = t := by
  constructor
  · intro h
    have hdecode := decode?_encode s
    rw [h, decode?_encode] at hdecode
    exact (Option.some.inj hdecode).symm
  · rintro rfl
    rfl

/-! ## Texts after other bytes -/

theorem Sequence.lead_not (h : Sequence lead tail v) : isContinuation lead = false := by
  rw [← Bool.not_eq_true, isContinuation_iff]
  cases h <;> omega

theorem Sequence.isContinuation_of_mem (h : Sequence lead tail v) (hb : b ∈ tail) :
    isContinuation b = true := by
  cases h with
  | one => cases hb
  | two _ _ h₁ =>
    obtain rfl := List.mem_singleton.1 hb
    exact h₁
  | three _ _ h₁ h₂ =>
    rcases List.mem_cons.1 hb with rfl | hb
    · exact isContinuation_iff.2 (mayFollow_iff.1 h₁).1
    · obtain rfl := List.mem_singleton.1 hb
      exact h₂
  | four _ _ h₁ h₂ h₃ =>
    rcases List.mem_cons.1 hb with rfl | hb
    · exact isContinuation_iff.2 (mayFollow_iff.1 h₁).1
    · rcases List.mem_cons.1 hb with rfl | hb
      · exact h₂
      · obtain rfl := List.mem_singleton.1 hb
        exact h₃

/-- No text begins with a continuation byte. -/
theorem encode_ne_cons (hb : isContinuation b = true) (text : List Char) (rest : List UInt8) :
    encode text ≠ b :: rest := by
  intro h
  cases text with
  | nil => cases h
  | cons c text =>
    obtain ⟨lead, tail, hs, he⟩ := exists_sequence c
    rw [encode_cons, he, List.cons_append] at h
    obtain ⟨rfl, -⟩ := List.cons.inj h
    rw [hs.lead_not] at hb
    cases hb

theorem exists_of_append_encode {s t : List Char} (h : bytes ++ encode s = encode t) :
    ∃ u, bytes = encode u ∧ t = u ++ s := by
  induction t generalizing bytes with
  | nil =>
    obtain ⟨rfl, hs⟩ := List.append_eq_nil_iff.1 h
    exact ⟨[], rfl, (encode_inj.1 hs).symm⟩
  | cons c t ih =>
    cases bytes with
    | nil => exact ⟨[], rfl, (encode_inj.1 h).symm⟩
    | cons first bytes =>
      obtain ⟨lead, tail, hs, he⟩ := exists_sequence c
      rw [encode_cons, he, List.cons_append, List.cons_append] at h
      obtain ⟨hfirst, hrest⟩ := List.cons.inj h
      rcases List.append_eq_append_iff.1 hrest with ⟨zs, hz, hs'⟩ | ⟨zs, hz, ht⟩
      · cases zs with
        | nil =>
          rw [List.append_nil] at hz
          refine ⟨[c], ?_, ?_⟩
          · rw [encode_cons, he, hfirst, hz, encode, List.flatMap_nil, List.append_nil]
          · rw [encode_inj.1 hs']
            rfl
        | cons z zs =>
          -- the text after `bytes` would begin inside the sequence of `c`
          have hmem : z ∈ tail := by simp [hz]
          exact absurd hs' (encode_ne_cons (hs.isContinuation_of_mem hmem) _ _)
      · obtain ⟨u, rfl, rfl⟩ := ih ht.symm
        refine ⟨c :: u, ?_, rfl⟩
        rw [encode_cons, he, hfirst, hz, List.cons_append]

theorem decode?_append_encode (bytes : List UInt8) (s : List Char) :
    decode? (bytes ++ encode s) = (decode? bytes).map (· ++ s) := by
  apply Option.ext
  intro t
  rw [decode?_eq_some_iff, Option.map_eq_some_iff]
  constructor
  · intro h
    obtain ⟨u, rfl, rfl⟩ := exists_of_append_encode h
    exact ⟨u, decode?_encode u, rfl⟩
  · rintro ⟨u, hu, rfl⟩
    rw [decode?_eq_some_iff.1 hu, encode_append]

end Text
end GrammarModule
