import GrammarModule.Json.Skip
import GrammarModule.Proofs.Json.Number
import GrammarModule.Proofs.Json.Token

/-!
# GrammarModule.Proofs.Json.Skip

Values that are skipped. `Owes p t` says that the text `t` is what `p` still calls for: the rest of
the value and of every list and object around it. One step of the skipper keeps that
(`step_sound`, `exists_step`), so a whole run passes exactly such texts, and a value is passed
exactly by its form, whatever its depth (`skipValue_sound`, `skipValue_of_past`).
-/

namespace GrammarModule
namespace Json

/-! ## Values by their first character -/

namespace Frame

def opener : Frame → Char
  | .list => '['
  | .object => '\x7b'

/-- The text of an item of a list, or of a member of an object. -/
def Item : Frame → List Char → Prop
  | .list, t => IsValue t
  | .object, t => ∃ key value, IsString key ∧ IsValue value ∧ IsMember key value t

theorem closer_not_blank (frame : Frame) : Cursor.isBlank frame.closer = false := by
  cases frame <;> decide

theorem opener_not_blank (frame : Frame) : Cursor.isBlank frame.opener = false := by
  cases frame <;> decide

end Frame

theorem isValue_of_items {frame : Frame} {texts : List (List Char)} {r : List Char}
    (h : Items frame.closer true texts r) (hi : ∀ u ∈ texts, frame.Item u) :
    IsValue (frame.opener :: r) := by
  cases frame with
  | list => exact .list ⟨r, rfl, h⟩ hi
  | object =>
    -- the keys and values of the members, one by one
    obtain ⟨members, hm, hk, hv⟩ : ∃ members : List (List Char × List Char),
        List.Forall₂ (fun m u => IsMember m.1 m.2 u) members texts ∧
        (∀ m ∈ members, IsString m.1) ∧ ∀ m ∈ members, IsValue m.2 := by
      clear h
      induction texts with
      | nil => exact ⟨[], .nil, by simp, by simp⟩
      | cons u us ih =>
        obtain ⟨members, hm, hk, hv⟩ := ih fun w hw => hi w (by simp [hw])
        obtain ⟨key, value, hkey, hvalue, hu⟩ := hi u (by simp)
        exact ⟨(key, value) :: members, .cons hu hm, List.forall_mem_cons.2 ⟨hkey, hk⟩,
          List.forall_mem_cons.2 ⟨hvalue, hv⟩⟩
    exact .object ⟨r, rfl, h⟩ hm hk hv

/-- A value without parts. -/
inductive IsScalar : List Char → Prop
  | word {t : List Char} (h : t ∈ words) : IsScalar t
  | text {t : List Char} (h : IsString t) : IsScalar t
  | unsigned {t : List Char} (h : IsUnsigned t) : IsScalar t
  | negative {t : List Char} (h : IsUnsigned t) : IsScalar ('-' :: t)

theorem IsScalar.isValue {t : List Char} (h : IsScalar t) : IsValue t := by
  cases h with
  | word h => exact .word h
  | text h => exact .text h
  | unsigned h => exact .unsigned h
  | negative h => exact .negative h

theorem IsValue.cases_frame {t : List Char} (h : IsValue t) :
    IsScalar t ∨ ∃ (frame : Frame) (texts : List (List Char)) (r : List Char),
      t = frame.opener :: r ∧ Items frame.closer true texts r ∧ ∀ u ∈ texts, frame.Item u := by
  cases h with
  | word h => exact .inl (.word h)
  | text h => exact .inl (.text h)
  | unsigned h => exact .inl (.unsigned h)
  | negative h => exact .inl (.negative h)
  | list h hi =>
    obtain ⟨r, rfl, hr⟩ := h
    exact .inr ⟨.list, _, r, rfl, hr, hi⟩
  | object h hm hk hv =>
    obtain ⟨r, rfl, hr⟩ := h
    refine .inr ⟨.object, _, r, rfl, hr, ?_⟩
    clear hr
    induction hm with
    | nil => simp
    | @cons m u ms us hu _ ih =>
      intro w hw
      rcases List.mem_cons.1 hw with rfl | hw
      · exact ⟨m.1, m.2, hk m (by simp), hv m (by simp), hu⟩
      · exact ih (fun m hm => hk m (by simp [hm])) (fun m hm => hv m (by simp [hm])) w hw

theorem IsUnsigned.head {t : List Char} (h : IsUnsigned t) :
    ∃ x r, t = x :: r ∧ '0' ≤ x ∧ x ≤ '9' := by
  obtain ⟨whole, fraction, exponent, hwhole, -, -, -, rfl⟩ := h
  obtain ⟨x, r, rfl, hx⟩ := hwhole.head
  exact ⟨x, _, rfl, hx⟩

theorem not_digit_of_lt {x : Char} (h : x < '0' ∨ '9' < x) : ¬('0' ≤ x ∧ x ≤ '9') := by
  rintro ⟨h0, h9⟩
  rcases h with h | h
  · exact absurd h0 (Char.not_le.2 h)
  · exact absurd h9 (Char.not_le.2 h)

theorem opens_of_digit {x : Char} {r : List Char} (h : '0' ≤ x ∧ x ≤ '9') : Opens (x :: r) := by
  refine ⟨x, r, rfl, ?_, ?_, ?_⟩
  · rw [← Bool.not_eq_true, Cursor.isBlank_iff]
    simp only [List.mem_cons, List.not_mem_nil, or_false]
    rintro (rfl | rfl | rfl | rfl) <;> exact not_digit_of_lt (by decide) h
  · rintro rfl
    exact not_digit_of_lt (by decide) h
  · rintro rfl
    exact not_digit_of_lt (by decide) h

theorem IsString.opens {t : List Char} (h : IsString t) : Opens t := by
  obtain ⟨r, -, rfl⟩ := h
  exact ⟨'"', _, rfl, by decide, by decide, by decide⟩

theorem IsValue.opens {t : List Char} (h : IsValue t) : Opens t := by
  rcases h.cases_frame with h | ⟨frame, texts, r, rfl, -, -⟩
  · cases h with
    | word h =>
      simp only [words, List.mem_cons, List.not_mem_nil, or_false] at h
      rcases h with rfl | rfl | rfl <;> exact ⟨_, _, rfl, by decide, by decide, by decide⟩
    | text h => exact h.opens
    | unsigned h =>
      obtain ⟨x, r, rfl, hx⟩ := h.head
      exact opens_of_digit hx
    | negative h => exact ⟨'-', _, rfl, by decide, by decide, by decide⟩
  · cases frame <;> exact ⟨_, _, rfl, by decide, by decide, by decide⟩

/-! ## What is still to come -/

/-- The rest of the lists and objects around a value that has just been passed. -/
def OwesAfter : List Frame → List Char → Prop
  | [], t => t = []
  | frame :: around, t => ∃ texts r rest, Items frame.closer false texts r ∧
      (∀ u ∈ texts, frame.Item u) ∧ OwesAfter around rest ∧ t = r ++ rest

/-- The text that is still to come. -/
def Owes : Pending → List Char → Prop
  | .value around, t => ∃ b v rest, Blanks b ∧ IsValue v ∧ OwesAfter around rest ∧
      t = b ++ (v ++ rest)
  | .opened frame around, t => ∃ texts r rest, Items frame.closer true texts r ∧
      (∀ u ∈ texts, frame.Item u) ∧ OwesAfter around rest ∧ t = r ++ rest
  | .done around, t => OwesAfter around t

theorem head_of_blanks {b r : List Char} (x : Char) (hb : Blanks b) :
    ∃ y r', b ++ x :: r = y :: r' ∧ (y = x ∨ y ∈ [' ', '\n', '\t', '\r']) := by
  cases b with
  | nil => exact ⟨x, r, rfl, .inl rfl⟩
  | cons y b => exact ⟨y, _, rfl, .inr (hb y (by simp))⟩

/-- What follows an item begins with a blank, a comma or the closing character. -/
theorem Items.head {close : Char} {texts : List (List Char)} {r : List Char}
    (h : Items close false texts r) :
    ∃ y r', r = y :: r' ∧ (y = close ∨ y = ',' ∨ y ∈ [' ', '\n', '\t', '\r']) := by
  cases h with
  | close hb =>
    obtain ⟨y, r', hy, hmem⟩ := head_of_blanks (r := []) close hb
    exact ⟨y, r', hy, hmem.imp_right .inr⟩
  | @item _ _ t r _ hs _ =>
    cases hs with
    | @comma b b' hb _ =>
      obtain ⟨y, r', hy, hmem⟩ := head_of_blanks (r := b' ++ (t ++ r)) ',' hb
      refine ⟨y, r', ?_, .inr hmem⟩
      rw [← hy, List.append_assoc, List.cons_append]

/-- Nothing that follows an item continues a number. -/
theorem Items.ends (frame : Frame) {texts : List (List Char)} {r s : List Char} {c d : Cursor}
    (h : Items frame.closer false texts r) (hp : c.Past (r ++ s) d) : c.Ends := by
  obtain ⟨y, r', rfl, hy⟩ := h.head
  intro x hx
  rw [hp.rest] at hx
  cases hx
  simp only [List.mem_cons, List.not_mem_nil, or_false] at hy
  rcases hy with rfl | rfl | rfl | rfl | rfl | rfl
  · cases frame <;> decide
  all_goals decide

/-- What follows a value does not continue a number, or it no longer belongs to the value. -/
theorem ends_of_owesAfter {around : List Frame} {t : List Char} {c d : Cursor}
    (h : OwesAfter around t) (hp : c.Past t d) (hd : d.Ends) : c.Ends := by
  cases around with
  | nil =>
    obtain rfl : t = [] := h
    rw [← Cursor.past_nil_iff.1 hp]
    exact hd
  | cons frame around =>
    obtain ⟨texts, r, rest, hr, -, -, rfl⟩ := h
    exact hr.ends frame hp

/-! ## One step -/

/-- One step of the skipper; where nothing is to come it stays. -/
def Pending.step : Pending → Cursor → Except Error (Pending × Cursor)
  | .value around, c => skipStart around c
  | .opened frame around, c => skipFirst frame around c
  | .done (frame :: around), c => skipNext frame around c
  | .done [], c => .ok (.done [], c)

theorem skipPending_cons {pending : Pending} (h : pending ≠ .done []) (x : Char)
    (bound : List Char) (c : Cursor) :
    skipPending (x :: bound) pending c =
      (do let (next, d) ← pending.step c; skipPending bound next d) := by
  cases pending with
  | value around => rw [skipPending]; rfl
  | opened frame around => rw [skipPending]; rfl
  | done around =>
    cases around with
    | nil => exact absurd rfl h
    | cons frame around => rw [skipPending]; rfl

theorem skipPending_nil {pending : Pending} (h : pending ≠ .done []) (c d : Cursor) :
    skipPending [] pending c ≠ .ok d := by
  cases pending with
  | value around => rw [skipPending]; simp [Cursor.failNext]
  | opened frame around => rw [skipPending]; simp [Cursor.failNext]
  | done around =>
    cases around with
    | nil => exact absurd rfl h
    | cons frame around => rw [skipPending]; simp [Cursor.failNext]

theorem skipPending_done (bound : List Char) (c : Cursor) :
    skipPending bound (.done []) c = .ok c := by
  cases bound <;> rw [skipPending]

/-! ## Steps pass what is owed -/

theorem exists_past_word {c d : Cursor} {x : Char} {r w : List Char} (hr : c.rest = x :: r)
    (hw : x :: w ∈ words) (h : expectWord c.advance w = .ok d) : ∃ s, IsValue s ∧ c.Past s d :=
  ⟨x :: w, .word hw, (Cursor.past_advance hr).trans (expectWord_eq_ok_iff.1 h)⟩

/-- A value without parts is passed whole, of another one the opening character. -/
theorem skipStart_sound {around : List Frame} {c e : Cursor} {next : Pending}
    (h : skipStart around c = .ok (next, e)) :
    ∃ b s, Blanks b ∧ c.Past (b ++ s) e ∧ ((next = .done around ∧ IsValue s) ∨
      ∃ frame : Frame, next = .opened frame around ∧ s = [frame.opener]) := by
  obtain ⟨b, hb, hp⟩ := c.exists_past_skipBlank
  -- the readers of a value without parts give the cursor after it
  have hwhole : ∀ {rest : Except Error Cursor},
      (do .ok (.done around, ← rest) : Except Error (Pending × Cursor)) = .ok (next, e) →
      (∀ f, rest = .ok f → ∃ s, IsValue s ∧ c.skipBlank.Past s f) →
      ∃ b s, Blanks b ∧ c.Past (b ++ s) e ∧ ((next = .done around ∧ IsValue s) ∨
        ∃ frame : Frame, next = .opened frame around ∧ s = [frame.opener]) := by
    intro rest hr hs
    obtain ⟨f, hf, hr⟩ := bind_eq_ok_iff.1 hr
    cases hr
    obtain ⟨s, hv, hps⟩ := hs e hf
    exact ⟨b, s, hb, hp.trans hps, .inl ⟨rfl, hv⟩⟩
  simp only [skipStart] at h
  split at h
  · cases h
  · next hr =>
    exact hwhole h fun f hf => exists_past_word hr (by decide) hf
  · next hr =>
    exact hwhole h fun f hf => exists_past_word hr (by decide) hf
  · next hr =>
    exact hwhole h fun f hf => exists_past_word hr (by decide) hf
  · next hr =>
    refine hwhole h fun f hf => ?_
    obtain ⟨t, ht, hpt⟩ := skipText_eq_ok_iff.1 hf
    exact ⟨_, .text ⟨t, ht, rfl⟩, (Cursor.past_advance hr).trans hpt⟩
  · next hr =>
    refine hwhole h fun f hf => ?_
    obtain ⟨t, ht, hpt⟩ := skipNumber_sound hf
    exact ⟨_, .negative ht, (Cursor.past_advance hr).trans hpt⟩
  · next hr =>
    cases h
    exact ⟨b, _, hb, hp.trans (Cursor.past_advance hr), .inr ⟨.list, rfl, rfl⟩⟩
  · next hr =>
    cases h
    exact ⟨b, _, hb, hp.trans (Cursor.past_advance hr), .inr ⟨.object, rfl, rfl⟩⟩
  · split at h
    · refine hwhole h fun f hf => ?_
      obtain ⟨t, ht, hpt⟩ := skipNumber_sound hf
      exact ⟨t, .unsigned ht, hpt⟩
    · cases h

/-- A step from a value, in terms of what is owed. -/
theorem skipStart_owes {around : List Frame} {c e : Cursor} {next : Pending} {t : List Char}
    (h : skipStart around c = .ok (next, e)) (ht : Owes next t) :
    ∃ s, c.Past s e ∧ Owes (.value around) (s ++ t) := by
  obtain ⟨b, s, hb, hp, ⟨rfl, hs⟩ | ⟨frame, rfl, rfl⟩⟩ := skipStart_sound h
  · exact ⟨b ++ s, hp, b, s, t, hb, hs, ht, by rw [List.append_assoc]⟩
  · obtain ⟨texts, r, rest, hr, hi, hrest, rfl⟩ := ht
    refine ⟨b ++ [frame.opener], hp, b, frame.opener :: r, rest, hb, isValue_of_items hr hi, hrest,
      by simp⟩

theorem skipKey_sound {c e : Cursor} (h : skipKey c = .ok e) :
    ∃ b key b', Blanks b ∧ IsString key ∧ Blanks b' ∧ c.Past (b ++ (key ++ (b' ++ [':']))) e := by
  obtain ⟨b, hb, hp⟩ := c.exists_past_skipBlank
  simp only [skipKey] at h
  split at h
  · cases h
  · next hr =>
    obtain ⟨f, hf, h⟩ := bind_eq_ok_iff.1 h
    obtain ⟨t, ht, hpt⟩ := skipText_eq_ok_iff.1 hf
    obtain ⟨b', hb', hpc⟩ := expectColon_eq_ok_iff.1 h
    exact ⟨b, _, b', hb, ⟨t, ht, rfl⟩, hb',
      hp.trans (((Cursor.past_advance hr).trans hpt).trans hpc)⟩
  · cases h

/-- A key is passed, its value is owed: together they are a member. -/
theorem owes_of_key {b b' key t : List Char} {around : List Frame} (hkey : IsString key)
    (hb' : Blanks b') (h : Owes (.value (.object :: around)) t) :
    ∃ u r, Frame.object.Item u ∧ OwesAfter (.object :: around) r ∧
      b ++ (key ++ (b' ++ [':'])) ++ t = b ++ (u ++ r) := by
  obtain ⟨b'', v, r, hb'', hv, hr, rfl⟩ := h
  exact ⟨key ++ (b' ++ ':' :: (b'' ++ v)), r, ⟨key, v, hkey, hv, b', b'', hb', hb'', rfl⟩, hr,
    by simp⟩

theorem skipFirst_owes {frame : Frame} {around : List Frame} {c e : Cursor} {next : Pending}
    {t : List Char} (h : skipFirst frame around c = .ok (next, e)) (ht : Owes next t) :
    ∃ s, c.Past s e ∧ Owes (.opened frame around) (s ++ t) := by
  obtain ⟨b, hb, hp⟩ := c.exists_past_skipBlank
  simp only [skipFirst] at h
  split at h
  · cases h
  · next x r hr =>
    split at h
    · next hx =>
      subst hx
      cases h
      exact ⟨b ++ [frame.closer], hp.trans (Cursor.past_advance hr), [], b ++ [frame.closer], t,
        .close hb, by simp, ht, rfl⟩
    · split at h
      · obtain ⟨s, hps, b', v, rest, hb', hv, ⟨texts, r, rest, hr, hi, hrest, rfl⟩, hs⟩ :=
          skipStart_owes h ht
        refine ⟨b ++ s, hp.trans hps, v :: texts, (b ++ b') ++ (v ++ r), rest,
          .item (.first (hb.append hb')) hr, List.forall_mem_cons.2 ⟨hv, hi⟩, hrest, ?_⟩
        rw [List.append_assoc, hs]
        simp
      · obtain ⟨f, hf, h⟩ := bind_eq_ok_iff.1 h
        cases h
        obtain ⟨b', key, b'', hb', hkey, hb'', hpk⟩ := skipKey_sound hf
        obtain ⟨u, r, hu, ⟨texts, r, rest, hr, hi, hrest, rfl⟩, hs⟩ :=
          owes_of_key (b := b ++ b') hkey hb'' ht
        refine ⟨_, hp.trans hpk, u :: texts, (b ++ b') ++ (u ++ r), rest,
          .item (.first (hb.append hb')) hr, List.forall_mem_cons.2 ⟨hu, hi⟩, hrest, ?_⟩
        simpa using hs

theorem skipNext_owes {frame : Frame} {around : List Frame} {c e : Cursor} {next : Pending}
    {t : List Char} (h : skipNext frame around c = .ok (next, e)) (ht : Owes next t) :
    ∃ s, c.Past s e ∧ Owes (.done (frame :: around)) (s ++ t) := by
  obtain ⟨b, hb, hp⟩ := c.exists_past_skipBlank
  simp only [skipNext] at h
  split at h
  · cases h
  · next x r hr =>
    have hpx := hp.trans (Cursor.past_advance hr)
    split at h
    · next hx =>
      subst hx
      cases h
      exact ⟨b ++ [frame.closer], hpx, [], b ++ [frame.closer], t, .close hb, by simp, ht, rfl⟩
    · split at h
      · next hx =>
        subst hx
        split at h
        · cases h
          obtain ⟨b', v, rest, hb', hv, ⟨texts, r, rest, hr, hi, hrest, rfl⟩, rfl⟩ := ht
          refine ⟨b ++ [','], hpx, v :: texts, (b ++ ',' :: b') ++ (v ++ r), rest,
            .item (.comma hb hb') hr, List.forall_mem_cons.2 ⟨hv, hi⟩, hrest, by simp⟩
        · obtain ⟨f, hf, h⟩ := bind_eq_ok_iff.1 h
          cases h
          obtain ⟨b', key, b'', hb', hkey, hb'', hpk⟩ := skipKey_sound hf
          obtain ⟨u, r, hu, ⟨texts, r, rest, hr, hi, hrest, rfl⟩, hs⟩ :=
            owes_of_key (b := b') hkey hb'' ht
          refine ⟨_, hpx.trans hpk, u :: texts, (b ++ ',' :: b') ++ (u ++ r), rest,
            .item (.comma hb hb') hr, List.forall_mem_cons.2 ⟨hu, hi⟩, hrest, ?_⟩
          rw [List.append_assoc, hs]
          simp
      · cases h

/-- A step passes a part of what is owed. -/
theorem step_sound {pending next : Pending} {c e : Cursor} {t : List Char}
    (h : pending.step c = .ok (next, e)) (ht : Owes next t) :
    ∃ s, c.Past s e ∧ Owes pending (s ++ t) := by
  cases pending with
  | value around => exact skipStart_owes h ht
  | opened frame around => exact skipFirst_owes h ht
  | done around =>
    cases around with
    | nil =>
      cases h
      exact ⟨[], .refl _, ht⟩
    | cons frame around => exact skipNext_owes h ht

theorem skipPending_sound {bound : List Char} {pending : Pending} {c d : Cursor}
    (h : skipPending bound pending c = .ok d) : ∃ t, c.Past t d ∧ Owes pending t := by
  induction bound generalizing pending c with
  | nil =>
    by_cases hdone : pending = .done []
    · subst hdone
      rw [skipPending_done] at h
      cases h
      exact ⟨[], .refl _, rfl⟩
    · exact absurd h (skipPending_nil hdone c d)
  | cons x bound ih =>
    by_cases hdone : pending = .done []
    · subst hdone
      rw [skipPending_done] at h
      cases h
      exact ⟨[], .refl _, rfl⟩
    · rw [skipPending_cons hdone] at h
      obtain ⟨⟨next, e⟩, he, h⟩ := bind_eq_ok_iff.1 h
      obtain ⟨t, hpt, ht⟩ := ih h
      obtain ⟨s, hps, hs⟩ := step_sound he ht
      exact ⟨s ++ t, hps.trans hpt, hs⟩

/-- The text that is skipped is a value. -/
theorem skipValue_sound {c d : Cursor} (h : skipValue c = .ok d) :
    ∃ b t, Blanks b ∧ IsValue t ∧ c.Past (b ++ t) d := by
  obtain ⟨_, hp, b, v, rest, hb, hv, rfl, rfl⟩ := skipPending_sound h
  rw [List.append_nil] at hp
  exact ⟨b, v, hb, hv, hp⟩

/-! ## What is owed is passed -/

theorem skipStart_scalar {around : List Frame} {c d : Cursor} {b v : List Char} (hb : Blanks b)
    (hv : IsScalar v) (hp : c.Past (b ++ v) d) (hd : d.Ends) :
    skipStart around c = .ok (.done around, d) := by
  obtain ⟨m, hm, hpv⟩ := Cursor.past_append_iff.1 hp
  have hskip := hm.skipBlank_eq hb (hv.isValue.opens.stands hpv).1.solid
  cases hv with
  | word hw =>
    simp only [words, List.mem_cons, List.not_mem_nil, or_false] at hw
    rcases hw with rfl | rfl | rfl
    all_goals
      obtain ⟨f, hf, hfd⟩ := Cursor.past_cons_iff.1 hpv
      simp only [skipStart, hskip, hf.rest, List.singleton_append, hf.advance_eq,
        expectWord_eq_ok_iff.2 hfd]
      rfl
  | text ht =>
    obtain ⟨r, hr, rfl⟩ := ht
    obtain ⟨f, hf, hfd⟩ := Cursor.past_cons_iff.1 hpv
    simp only [skipStart, hskip, hf.rest, List.singleton_append, hf.advance_eq,
      skipText_eq_ok_iff.2 ⟨r, hr, hfd⟩]
    rfl
  | unsigned hu =>
    obtain ⟨x, r, rfl, hx⟩ := hu.head
    have hnot : ∀ {y : Char} {s : List Char}, m.rest = y :: s → y < '0' ∨ '9' < y → False := by
      intro y s hy hlt
      rw [hpv.rest] at hy
      cases hy
      exact not_digit_of_lt hlt hx
    simp only [skipStart, hskip]
    split
    · next h => rw [hpv.rest] at h; cases h
    · next h => exact (hnot h (by decide)).elim
    · next h => exact (hnot h (by decide)).elim
    · next h => exact (hnot h (by decide)).elim
    · next h => exact (hnot h (by decide)).elim
    · next h => exact (hnot h (by decide)).elim
    · next h => exact (hnot h (by decide)).elim
    · next h => exact (hnot h (by decide)).elim
    · next y s _ _ _ _ _ _ _ h =>
      rw [hpv.rest] at h
      cases h
      rw [if_pos (Cursor.isDigit_iff.2 hx), skipNumber_of_past hu hpv hd]
      rfl
  | negative hu =>
    obtain ⟨f, hf, hfd⟩ := Cursor.past_cons_iff.1 hpv
    simp only [skipStart, hskip, hf.rest, List.singleton_append, hf.advance_eq,
      skipNumber_of_past hu hfd hd]
    rfl

theorem skipStart_opener {around : List Frame} {frame : Frame} {c d : Cursor} {b : List Char}
    (hb : Blanks b) (hp : c.Past (b ++ [frame.opener]) d) :
    skipStart around c = .ok (.opened frame around, d) := by
  obtain ⟨hr, hd⟩ := Cursor.rest_skipBlank_of_past hp hb frame.opener_not_blank
  rw [Cursor.past_nil_iff.1 hd]
  cases frame <;> simp only [skipStart, hr, Frame.opener]

/-- A step from a value that is owed. -/
theorem exists_skipStart {around : List Frame} {c d : Cursor} {t : List Char}
    (h : Owes (.value around) t) (hp : c.Past t d) (hd : d.Ends) :
    ∃ next e s, skipStart around c = .ok (next, e) ∧ Owes next s ∧ e.Past s d ∧
      e.rest.length < c.rest.length := by
  obtain ⟨b, v, rest, hb, hv, hrest, rfl⟩ := h
  rw [← List.append_assoc] at hp
  obtain ⟨e, he, hpr⟩ := Cursor.past_append_iff.1 hp
  rcases hv.cases_frame with hs | ⟨frame, texts, r, rfl, hr, hi⟩
  · refine ⟨_, e, rest, skipStart_scalar hb hs he (ends_of_owesAfter hrest hpr hd), hrest, hpr, ?_⟩
    obtain ⟨x, r, rfl, -⟩ := hv.opens
    have := he.length_rest
    simp only [List.length_append, List.length_cons] at this
    omega
  · rw [List.append_cons] at he
    obtain ⟨f, hf, hfe⟩ := Cursor.past_append_iff.1 he
    refine ⟨_, f, r ++ rest, skipStart_opener hb hf, ⟨texts, r, rest, hr, hi, hrest, rfl⟩,
      hfe.trans hpr, ?_⟩
    have := hf.length_rest
    simp only [List.length_append, List.length_singleton] at this
    omega

theorem skipKey_of_past {c d : Cursor} {b key b' : List Char} (hb : Blanks b)
    (hkey : IsString key) (hb' : Blanks b') (hp : c.Past (b ++ (key ++ (b' ++ [':']))) d) :
    skipKey c = .ok d := by
  obtain ⟨r, hr, rfl⟩ := hkey
  obtain ⟨hrest, hpk⟩ := Cursor.rest_skipBlank_of_past hp hb (by decide)
  obtain ⟨e, he, hpc⟩ := Cursor.past_append_iff.1 hpk
  simp only [skipKey, hrest, skipText_eq_ok_iff.2 ⟨r, hr, he⟩, bind, Except.bind]
  exact expectColon_eq_ok_iff.2 ⟨b', hb', hpc⟩

/-- A member is owed: its key and colon can be passed, and then its value is owed. -/
theorem exists_skipKey {around : List Frame} {c d : Cursor} {b u r : List Char} (hb : Blanks b)
    (hu : Frame.object.Item u) (hr : OwesAfter (.object :: around) r)
    (hp : c.Past (b ++ (u ++ r)) d) :
    ∃ e s, skipKey c = .ok e ∧ Owes (.value (.object :: around)) s ∧ e.Past s d ∧
      e.rest.length < c.rest.length := by
  obtain ⟨key, value, hkey, hvalue, b', b'', hb', hb'', rfl⟩ := hu
  have hsplit : b ++ ((key ++ (b' ++ ':' :: (b'' ++ value))) ++ r) =
      (b ++ (key ++ (b' ++ [':']))) ++ (b'' ++ (value ++ r)) := by simp
  rw [hsplit] at hp
  obtain ⟨e, he, hpv⟩ := Cursor.past_append_iff.1 hp
  refine ⟨e, _, skipKey_of_past hb hkey hb' he, ⟨b'', value, r, hb'', hvalue, hr, rfl⟩, hpv, ?_⟩
  have := he.length_rest
  simp only [List.length_append, List.length_singleton] at this
  omega

theorem Frame.Item.opens {frame : Frame} {u : List Char} (h : frame.Item u) : Opens u := by
  cases frame with
  | list => exact IsValue.opens h
  | object =>
    obtain ⟨key, value, hkey, -, b, b', -, -, rfl⟩ := h
    obtain ⟨x, r, rfl, hx⟩ := hkey.opens
    exact ⟨x, _, rfl, hx⟩

/-- The closing character of what was just opened, or of what an item has been passed of. -/
theorem exists_closed {frame : Frame} {around : List Frame} {c d : Cursor} {b rest : List Char}
    (hb : Blanks b) (hrest : OwesAfter around rest)
    (hp : c.Past (b ++ [frame.closer] ++ rest) d) :
    ∃ r e, c.skipBlank.rest = frame.closer :: r ∧ c.skipBlank.advance = e ∧
      Owes (.done around) rest ∧ e.Past rest d ∧ e.rest.length < c.rest.length := by
  obtain ⟨e, he, hpr⟩ := Cursor.past_append_iff.1 hp
  obtain ⟨hr, hadv⟩ := Cursor.rest_skipBlank_of_past he hb frame.closer_not_blank
  refine ⟨_, e, hr, (Cursor.past_nil_iff.1 hadv).symm, hrest, hpr, ?_⟩
  have := he.length_rest
  simp only [List.length_append, List.length_singleton] at this
  omega

theorem exists_skipFirst {frame : Frame} {around : List Frame} {c d : Cursor} {t : List Char}
    (h : Owes (.opened frame around) t) (hp : c.Past t d) (hd : d.Ends) :
    ∃ next e s, skipFirst frame around c = .ok (next, e) ∧ Owes next s ∧ e.Past s d ∧
      e.rest.length < c.rest.length := by
  obtain ⟨texts, r, rest, hr, hi, hrest, rfl⟩ := h
  cases hr with
  | close hb =>
    obtain ⟨r, e, hclose, hadv, ht, hpt, hlt⟩ := exists_closed hb hrest hp
    refine ⟨_, e, rest, ?_, ht, hpt, hlt⟩
    simp only [skipFirst, hclose, if_true, hadv]
  | @item _ b u r us hs hr =>
    obtain ⟨hu, hus⟩ := List.forall_mem_cons.1 hi
    cases hs with
    | first hb =>
      have hafter : OwesAfter (frame :: around) (r ++ rest) := ⟨us, r, rest, hr, hus, hrest, rfl⟩
      rw [List.append_assoc, List.append_assoc] at hp
      obtain ⟨m, hm, hpu⟩ := Cursor.past_append_iff.1 hp
      obtain ⟨x, w, rfl, hx, hlist, hobject⟩ := hu.opens
      have hskip := hm.skipBlank_eq hb (Cursor.solid_of_rest hpu.rest hx)
      have hne : x ≠ frame.closer := by cases frame <;> assumption
      have hlen := hm.length_rest
      cases frame with
      | list =>
        obtain ⟨next, e, s, hstep, ht, hpt, hlt⟩ := exists_skipStart (t := x :: w ++ (r ++ rest))
          ⟨[], _, _, blanks_nil, hu, hafter, rfl⟩ hpu hd
        refine ⟨next, e, s, ?_, ht, hpt, by omega⟩
        simp only [skipFirst, hskip, hpu.rest, List.cons_append, if_neg hne, hstep]
      | object =>
        obtain ⟨e, s, hkey, ht, hpt, hlt⟩ := exists_skipKey blanks_nil hu hafter hpu
        refine ⟨_, e, s, ?_, ht, hpt, by omega⟩
        simp only [skipFirst, hskip, hpu.rest, List.cons_append, if_neg hne, hkey]
        rfl

theorem exists_skipNext {frame : Frame} {around : List Frame} {c d : Cursor} {t : List Char}
    (h : Owes (.done (frame :: around)) t) (hp : c.Past t d) :
    ∃ next e s, skipNext frame around c = .ok (next, e) ∧ Owes next s ∧ e.Past s d ∧
      e.rest.length < c.rest.length := by
  obtain ⟨texts, r, rest, hr, hi, hrest, rfl⟩ := h
  cases hr with
  | close hb =>
    obtain ⟨r, e, hclose, hadv, ht, hpt, hlt⟩ := exists_closed hb hrest hp
    refine ⟨_, e, rest, ?_, ht, hpt, hlt⟩
    simp only [skipNext, hclose, if_true, hadv]
  | @item _ _ u r us hs hr =>
    obtain ⟨hu, hus⟩ := List.forall_mem_cons.1 hi
    cases hs with
    | @comma b b' hb hb' =>
      have hafter : OwesAfter (frame :: around) (r ++ rest) := ⟨us, r, rest, hr, hus, hrest, rfl⟩
      have hne : ',' ≠ frame.closer := by cases frame <;> decide
      have hsplit : b ++ ',' :: b' ++ (u ++ r) ++ rest =
          b ++ ',' :: (b' ++ (u ++ (r ++ rest))) := by simp
      rw [hsplit] at hp
      have hlen := hp.length_rest
      obtain ⟨hcomma, hpu⟩ := Cursor.rest_skipBlank_of_past hp hb (by decide)
      have hlen' := hpu.length_rest
      simp only [List.length_append, List.length_cons] at hlen hlen'
      cases frame with
      | list =>
        have howes : Owes (.value (.list :: around)) (b' ++ (u ++ (r ++ rest))) :=
          ⟨b', u, r ++ rest, hb', hu, hafter, rfl⟩
        refine ⟨_, _, _, ?_, howes, hpu, by omega⟩
        simp only [skipNext, hcomma, if_neg hne, if_true]
      | object =>
        obtain ⟨e, s, hkey, ht, hpt, hlt⟩ := exists_skipKey hb' hu hafter hpu
        refine ⟨_, e, s, ?_, ht, hpt, by omega⟩
        simp only [skipNext, hcomma, if_neg hne, if_true, hkey]
        rfl

/-- As long as something is owed, a step passes a part of it and leaves the rest. -/
theorem exists_step {pending : Pending} {c d : Cursor} {t : List Char} (h : Owes pending t)
    (hp : c.Past t d) (hd : d.Ends) (hdone : pending ≠ .done []) :
    ∃ next e s, pending.step c = .ok (next, e) ∧ Owes next s ∧ e.Past s d ∧
      e.rest.length < c.rest.length := by
  cases pending with
  | value around => exact exists_skipStart h hp hd
  | opened frame around => exact exists_skipFirst h hp hd
  | done around =>
    cases around with
    | nil => exact absurd rfl hdone
    | cons frame around => exact exists_skipNext h hp

theorem skipPending_of_past {bound : List Char} {pending : Pending} {c d : Cursor}
    {t : List Char} (h : Owes pending t) (hp : c.Past t d) (hd : d.Ends)
    (hbound : c.rest.length ≤ bound.length) : skipPending bound pending c = .ok d := by
  induction bound generalizing pending c t with
  | nil =>
    by_cases hdone : pending = .done []
    · subst hdone
      obtain rfl : t = [] := h
      rw [skipPending_done, Cursor.past_nil_iff.1 hp]
    · obtain ⟨_, e, _, _, _, _, hlt⟩ := exists_step h hp hd hdone
      rw [List.length_nil] at hbound
      omega
  | cons x bound ih =>
    by_cases hdone : pending = .done []
    · subst hdone
      obtain rfl : t = [] := h
      rw [skipPending_done, Cursor.past_nil_iff.1 hp]
    · obtain ⟨next, e, s, hstep, hs, hps, hlt⟩ := exists_step h hp hd hdone
      rw [List.length_cons] at hbound
      rw [skipPending_cons hdone, hstep]
      exact ih hs hps (by omega)

/-- Every value is skipped where what follows does not continue it. -/
theorem skipValue_of_past {c d : Cursor} {b t : List Char} (hb : Blanks b) (ht : IsValue t)
    (hp : c.Past (b ++ t) d) (hd : d.Ends) : skipValue c = .ok d := by
  have h : Owes (.value []) (b ++ t) := ⟨b, t, [], hb, ht, rfl, by simp⟩
  exact skipPending_of_past h hp hd (Nat.le_refl _)

end Json
end GrammarModule
