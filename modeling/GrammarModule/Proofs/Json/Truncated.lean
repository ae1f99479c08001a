import GrammarModule.Proofs.Json.Token

/-!
# GrammarModule.Proofs.Json.Truncated

Texts that are cut. `c.extend s` is the place of `c` in a text that goes on with `s`, and `Cut`
compares a run on the text up to the cut with the run on the whole. The readers of words, strings
and separators look no further than what they pass: up to a cut they do the same as on the whole
text, or they refuse the text as cut short (`readText_cut`, `skipText_cut`, `nextItem_cut` and the
others of this form).
-/

namespace GrammarModule
namespace Json

variable {α β γ : Type}

namespace Cursor

/-- The same place in a text that goes on with `s`. -/
def extend (c : Cursor) (s : List Char) : Cursor := ⟨c.position, c.rest ++ s⟩

@[simp] theorem rest_extend (c : Cursor) (s : List Char) : (c.extend s).rest = c.rest ++ s := rfl

@[simp] theorem position_extend (c : Cursor) (s : List Char) :
    (c.extend s).position = c.position := rfl

theorem past_extend_iff {c d : Cursor} {s t : List Char} :
    (c.extend s).Past t (d.extend s) ↔ c.Past t d := by
  constructor
  · intro h
    have hr := h.rest
    simp only [rest_extend, ← List.append_assoc] at hr
    exact ⟨List.append_cancel_right hr, h.position⟩
  · intro h
    exact ⟨by simp [h.rest], h.position⟩

theorem advance_extend {c : Cursor} {x : Char} {r : List Char} (h : c.rest = x :: r)
    (s : List Char) : (c.extend s).advance = c.advance.extend s :=
  (past_extend_iff.2 (past_advance h)).advance_eq

theorem drop_extend {c : Cursor} {n : Nat} (h : n ≤ c.rest.length) (s : List Char) :
    (c.extend s).drop n = (c.drop n).extend s := by
  have hp : (c.extend s).Past (c.rest.take n) ((c.drop n).extend s) :=
    past_extend_iff.2 (c.past_drop n)
  have hlen : (c.rest.take n).length = n := List.length_take_of_le h
  have hd := hp.drop_eq
  rwa [hlen] at hd

/-- Nothing but blanks comes before the cut, or what stands next does so in the whole text too. -/
theorem skipBlank_extend (c : Cursor) (s : List Char) :
    c.skipBlank.rest = [] ∨ ∃ x r, c.skipBlank.rest = x :: r ∧
      (c.extend s).skipBlank = c.skipBlank.extend s ∧
      (c.skipBlank.extend s).advance = c.skipBlank.advance.extend s := by
  cases hr : c.skipBlank.rest with
  | nil => exact .inl rfl
  | cons x r =>
    obtain ⟨b, hb, hp⟩ := c.exists_past_skipBlank
    have hsolid : (c.skipBlank.extend s).Solid := by
      intro y hy
      exact c.solid_skipBlank y (by simpa [hr] using hy)
    have hskip : (c.extend s).skipBlank = c.skipBlank.extend s :=
      (past_extend_iff.2 hp).skipBlank_eq hb hsolid
    exact .inr ⟨x, r, rfl, hskip, advance_extend hr s⟩

end Cursor

/-! ## Runs up to a cut -/

/-- Refuses the text as cut short. -/
def CutShort (run : Except Error β) : Prop :=
  ∃ e, run = .error e ∧ e.cause.category = .cutShort

theorem cutShort_failHere {c : Cursor} {cause : Cause} (h : cause.category = .cutShort) :
    CutShort (c.failHere cause : Except Error β) := ⟨_, rfl, h⟩

theorem cutShort_failNext {c : Cursor} {cause : Cause} (h : cause.category = .cutShort) :
    CutShort (c.failNext cause : Except Error β) := ⟨_, rfl, h⟩

/-- How a run up to a cut compares with the run on the whole text that gives `r`: it gives what
`Same` relates to `r`, or refuses the text, as cut short unless `Torn r`. -/
def Cut (Same : β → β → Prop) (Torn : β → Prop) (run whole : Except Error β) : Prop :=
  ∀ r, whole = .ok r → (∃ r', run = .ok r' ∧ Same r' r) ∨
    ∃ e, run = .error e ∧ (e.cause.category = .cutShort ∨ Torn r)

/-- The same place in the text that goes on. -/
def Extends (s : List Char) (c d : Cursor) : Prop := d = c.extend s

/-- The same value, at the same place in the text that goes on. -/
def ExtendsAt (s : List Char) (a b : α × Cursor) : Prop := b = (a.1, a.2.extend s)

/-- Nothing is torn: a refusal is one of a text that is cut short. -/
def Whole (_ : β) : Prop := False

namespace Cut

variable {Same : β → β → Prop} {Torn : β → Prop} {run whole : Except Error β}

theorem ok {a b : β} (h : Same a b) : Cut Same Torn (.ok a) (.ok b) := by
  rintro r ⟨⟩
  exact .inl ⟨a, rfl, h⟩

theorem short (h : CutShort run) : Cut Same Torn run whole := by
  obtain ⟨e, he, hcause⟩ := h
  exact fun _ _ => .inr ⟨e, he, .inl hcause⟩

/-- Nothing is said where the whole text is refused. -/
theorem refused {e : Error} : Cut Same Torn run (.error e) := by
  rintro r ⟨⟩

theorem mono {Same' : β → β → Prop} {Torn' : β → Prop} (h : Cut Same Torn run whole)
    (hs : ∀ a b, whole = .ok b → Same a b → Same' a b)
    (ht : ∀ b, whole = .ok b → Torn b → Torn' b) : Cut Same' Torn' run whole := by
  intro r hr
  rcases h r hr with ⟨r', hr', hsame⟩ | ⟨e, he, htorn⟩
  · exact .inl ⟨r', hr', hs _ _ hr hsame⟩
  · exact .inr ⟨e, he, htorn.imp_right (ht r hr)⟩

/-- Two readers one after the other: what the first leaves torn has to be so for both. -/
theorem bind {Same' : γ → γ → Prop} {Torn' : γ → Prop} {f g : β → Except Error γ}
    (h : Cut Same Torn run whole)
    (hf : ∀ a b, whole = .ok b → run = .ok a → Same a b → Cut Same' Torn' (f a) (g b))
    (ht : ∀ b r, whole = .ok b → Torn b → g b = .ok r → Torn' r) :
    Cut Same' Torn' (run >>= f) (whole >>= g) := by
  intro r hr
  obtain ⟨b, hb, hr⟩ := bind_eq_ok_iff.1 hr
  rcases h b hb with ⟨a, ha, hsame⟩ | ⟨e, he, htorn⟩
  · rw [ha]
    exact hf a b hb ha hsame r hr
  · rw [he]
    exact .inr ⟨e, rfl, htorn.imp_right fun h => ht b r hb h hr⟩

/-- After a reader that leaves nothing torn. -/
theorem bind_whole {Same' : γ → γ → Prop} {Torn' : γ → Prop} {f g : β → Except Error γ}
    (h : Cut Same Whole run whole)
    (hf : ∀ a b, whole = .ok b → run = .ok a → Same a b → Cut Same' Torn' (f a) (g b)) :
    Cut Same' Torn' (run >>= f) (whole >>= g) :=
  h.bind hf fun _ _ _ hw => hw.elim

end Cut

/-! ## Words and separators -/

variable (c : Cursor) (s : List Char)

theorem expectWord_cut (w : List Char) :
    Cut (Extends s) Whole (expectWord c w) (expectWord (c.extend s) w) := by
  induction w generalizing c with
  | nil => exact .ok rfl
  | cons letter letters ih =>
    cases hr : c.rest with
    | nil =>
      simp only [expectWord, hr]
      exact .short (cutShort_failHere rfl)
    | cons next r =>
      simp only [expectWord, hr, Cursor.rest_extend, List.cons_append]
      split
      · rw [Cursor.advance_extend hr]
        exact ih c.advance
      · exact .refused

theorem nextItem_cut (first : Bool) :
    Cut (ExtendsAt s) Whole (nextItem first c) (nextItem first (c.extend s)) := by
  rcases c.skipBlank_extend s with hr | ⟨x, r, hr, hskip, hadv⟩
  · simp only [nextItem, hr]
    exact .short (cutShort_failNext rfl)
  simp only [nextItem, hskip, hr, Cursor.rest_extend, List.cons_append]
  by_cases hclose : x = ']'
  · subst hclose
    simp only [hadv]
    exact .ok rfl
  by_cases hcomma : x = ','
  · subst hcomma
    cases first with
    | true => exact .ok rfl
    | false =>
      simp only [Bool.false_eq_true, if_false, hadv]
      rcases c.skipBlank.advance.skipBlank_extend s with hr' | ⟨y, r', hr', hskip', -⟩
      · simp only [hr']
        exact .short (cutShort_failNext rfl)
      · simp only [hskip', hr', Cursor.rest_extend, List.cons_append]
        by_cases hy : y = ']'
        · subst hy
          exact .refused
        · simp only [hy, List.cons.injEq, false_and, imp_self, implies_true]
          exact .ok rfl
  · simp only [hclose, hcomma, List.cons.injEq, false_and, imp_self, implies_true]
    split
    · exact .ok rfl
    · exact .refused

theorem closeList_cut : Cut (Extends s) Whole (closeList c) (closeList (c.extend s)) := by
  rcases c.skipBlank_extend s with hr | ⟨x, r, hr, hskip, hadv⟩
  · simp only [closeList, hr]
    exact .short (cutShort_failNext rfl)
  simp only [closeList, hskip, hr, Cursor.rest_extend, List.cons_append]
  by_cases hclose : x = ']'
  · subst hclose
    simp only [hadv]
    exact .ok rfl
  by_cases hcomma : x = ','
  · subst hcomma
    exact .refused
  · simp only [hclose, hcomma, List.cons.injEq, false_and, imp_self, implies_true]
    exact .refused

theorem expectColon_cut :
    Cut (Extends s) Whole (expectColon c) (expectColon (c.extend s)) := by
  rcases c.skipBlank_extend s with hr | ⟨x, r, hr, hskip, hadv⟩
  · simp only [expectColon, hr]
    exact .short (cutShort_failNext rfl)
  simp only [expectColon, hskip, hr, Cursor.rest_extend, List.cons_append]
  by_cases hcolon : x = ':'
  · subst hcolon
    simp only [hadv]
    exact .ok rfl
  · simp only [hcolon, List.cons.injEq, false_and, imp_self, implies_true]
    exact .refused

/-! ## Escapes -/

theorem HexUnit.utf8Size {t : List Char} {n : Nat} (h : HexUnit t n) :
    ∀ x ∈ t, x.utf8Size = 1 := by
  cases h with
  | mk ha hb hc hd => simp [ha.utf8Size, hb.utf8Size, hc.utf8Size, hd.utf8Size]

theorem byteLength_eq_length {t : List Char} (h : ∀ x ∈ t, x.utf8Size = 1) :
    byteLength t = t.length := by
  induction t with
  | nil => rfl
  | cons x t ih =>
    obtain ⟨hx, ht⟩ := List.forall_mem_cons.1 h
    rw [byteLength_cons, hx, ih ht, List.length_cons]
    omega

/-- Of four digits fewer may have been written before the cut; then too few bytes are left. -/
theorem readUnit_cut : Cut Eq Whole (readUnit c) (readUnit (c.extend s)) := by
  intro n hn
  have hunit := readUnit_eq_ok_iff.1 hn
  by_cases hlen : 4 ≤ c.rest.length
  · rw [Cursor.rest_extend, List.take_append_of_le_length hlen] at hunit
    exact .inl ⟨n, readUnit_eq_ok_iff.2 hunit, rfl⟩
  · have htake : c.rest.take 4 = c.rest := List.take_of_length_le (by omega)
    have hbytes : byteLength (c.rest.take 4) = c.rest.length := by
      rw [htake]
      refine byteLength_eq_length fun x hx => hunit.utf8Size x ?_
      rw [Cursor.rest_extend, List.take_append, htake]
      exact List.mem_append_left _ hx
    refine .inr ⟨⟨.endInText, c.endPosition⟩, ?_, .inl rfl⟩
    rw [readUnit, if_pos (by omega)]

theorem expectInEscape_cut (wanted : Char) :
    Cut (Extends s) Whole (expectInEscape c wanted) (expectInEscape (c.extend s) wanted) := by
  cases hr : c.rest with
  | nil =>
    simp only [expectInEscape, hr]
    exact .short (cutShort_failHere rfl)
  | cons next r =>
    simp only [expectInEscape, hr, Cursor.rest_extend, List.cons_append]
    split
    · exact .ok (Cursor.advance_extend hr s)
    · exact .refused

/-- A unit that is read leaves at least its four characters behind. -/
theorem length_of_readUnit {n : Nat} (h : readUnit c = .ok n) : 4 ≤ c.rest.length := by
  have := (readUnit_eq_ok_iff.1 h).length
  rw [List.length_take] at this
  omega

theorem readEscape_cut : Cut Eq Whole (readEscape c) (readEscape (c.extend s)) := by
  cases hr : c.rest with
  | nil =>
    simp only [readEscape, hr]
    exact .short (cutShort_failHere rfl)
  | cons e r =>
    have hr' : (c.extend s).rest = e :: (r ++ s) := by simp [hr]
    by_cases hu : e = 'u'
    · subst hu
      simp only [readEscape, hr, hr', Cursor.advance_extend hr]
      refine (readUnit_cut c.advance s).bind_whole ?_
      rintro unit _ - hunit rfl
      have hdrop := Cursor.drop_extend (length_of_readUnit c.advance hunit) s
      split
      · exact .refused
      · split
        · rw [hdrop]
          refine (expectInEscape_cut _ s '\\').bind_whole ?_
          rintro c1 _ - - rfl
          refine (expectInEscape_cut _ s 'u').bind_whole ?_
          rintro c2 _ - - rfl
          refine (readUnit_cut c2 s).bind_whole ?_
          rintro low _ - - rfl
          split
          · exact .ok rfl
          · exact .refused
        · exact .ok rfl
    · rw [readEscape_short hr hu, readEscape_short hr' hu]
      split
      · exact .ok rfl
      · exact .refused

theorem skipEscape_cut : Cut Eq Whole (skipEscape c) (skipEscape (c.extend s)) := by
  cases hr : c.rest with
  | nil =>
    simp only [skipEscape, hr]
    exact .short (cutShort_failHere rfl)
  | cons e r =>
    have hr' : (c.extend s).rest = e :: (r ++ s) := by simp [hr]
    by_cases hu : e = 'u'
    · subst hu
      simp only [skipEscape, hr, hr', Cursor.advance_extend hr]
      exact (readUnit_cut c.advance s).bind_whole fun _ _ _ _ _ => .ok rfl
    · rw [skipEscape_short hr hu, skipEscape_short hr' hu]
      split
      · exact .ok rfl
      · exact .refused

/-! ## Strings -/

theorem Cursor.Past.length_le {c d : Cursor} {t : List Char} (h : c.Past t d) :
    t.length ≤ c.rest.length := by
  have := h.length_rest
  omega

/-- An escape that has been passed leaves the same place behind in a text that goes on. -/
theorem drop_escape {p : Position} {rest t : List Char} {n : Nat} (ht : t.length = n)
    (hp : (Cursor.mk p rest).Past t ((Cursor.mk p rest).drop n)) (s : List Char) :
    ((Cursor.mk p (rest ++ s)).drop n).position = ((Cursor.mk p rest).drop n).position ∧
      (rest ++ s).drop n = rest.drop n ++ s := by
  have hlen : n ≤ rest.length := ht ▸ hp.length_le
  have hdrop := Cursor.drop_extend (c := ⟨p, rest⟩) hlen s
  have hposition := congrArg Cursor.position hdrop
  exact ⟨hposition, List.drop_append_of_le_length hlen⟩

theorem readChars_cut (p : Position) (rest : List Char) :
    Cut (ExtendsAt s) Whole (readChars p rest) (readChars p (rest ++ s)) := by
  fun_induction readChars p rest with
  | case1 p => exact .short ⟨_, rfl, rfl⟩
  | case2 p rest =>
    simp only [List.cons_append, readChars, if_true]
    exact .ok rfl
  | case3 p rest hq ih =>
    rw [List.cons_append, readChars, if_neg hq, if_pos rfl]
    refine (readEscape_cut ⟨p.after '\\', rest⟩ s).bind_whole ?_
    rintro ⟨x, n⟩ _ - hx rfl
    obtain ⟨t, -, ht, hp⟩ := readEscape_sound hx
    obtain ⟨hposition, hrest⟩ := drop_escape ht hp s
    simp only [hposition, hrest]
    refine (ih n).bind_whole ?_
    rintro a _ - - rfl
    exact .ok rfl
  | case4 p c rest hq hb hc =>
    rw [List.cons_append, readChars, if_neg hq, if_neg hb, if_pos hc]
    exact .refused
  | case5 p c rest hq hb hc ih =>
    rw [List.cons_append, readChars, if_neg hq, if_neg hb, if_neg hc]
    refine ih.bind_whole ?_
    rintro a _ - - rfl
    exact .ok rfl

theorem skipChars_cut (p : Position) (rest : List Char) :
    Cut (Extends s) Whole (skipChars p rest) (skipChars p (rest ++ s)) := by
  fun_induction skipChars p rest with
  | case1 p => exact .short ⟨_, rfl, rfl⟩
  | case2 p rest =>
    simp only [List.cons_append, skipChars, if_true]
    exact .ok rfl
  | case3 p rest hq ih =>
    rw [List.cons_append, skipChars, if_neg hq, if_pos rfl]
    refine (skipEscape_cut ⟨p.after '\\', rest⟩ s).bind_whole ?_
    rintro n _ - hn rfl
    obtain ⟨t, -, ht, hp⟩ := skipEscape_sound hn
    obtain ⟨hposition, hrest⟩ := drop_escape ht hp s
    simp only [hposition, hrest]
    exact ih n
  | case4 p c rest hq hb hc =>
    rw [List.cons_append, skipChars, if_neg hq, if_neg hb, if_pos hc]
    exact .refused
  | case5 p c rest hq hb hc ih =>
    rw [List.cons_append, skipChars, if_neg hq, if_neg hb, if_neg hc]
    exact ih

theorem readText_cut : Cut (ExtendsAt s) Whole (readText c) (readText (c.extend s)) := by
  refine (readChars_cut s c.position c.rest).bind_whole ?_
  rintro a _ - - rfl
  exact .ok rfl

theorem skipText_cut : Cut (Extends s) Whole (skipText c) (skipText (c.extend s)) :=
  skipChars_cut s c.position c.rest

theorem nextKey_cut (first : Bool) :
    Cut (ExtendsAt s) Whole (nextKey first c) (nextKey first (c.extend s)) := by
  -- a key whose opening quote comes next
  have hkey : ∀ {c : Cursor} {r : List Char}, c.rest = '"' :: r → Cut (ExtendsAt s) Whole
      (readText c.advance >>= fun r => .ok (some r.1, r.2))
      (readText (c.extend s).advance >>= fun r => .ok (some r.1, r.2)) := by
    intro c r hr
    rw [Cursor.advance_extend hr]
    refine (readText_cut c.advance s).bind_whole ?_
    rintro a _ - - rfl
    exact .ok rfl
  rcases c.skipBlank_extend s with hr | ⟨x, r, hr, hskip, hadv⟩
  · simp only [nextKey, hr]
    exact .short (cutShort_failNext rfl)
  simp only [nextKey, hskip, hr, Cursor.rest_extend, List.cons_append]
  by_cases hclose : x = '\x7d'
  · subst hclose
    simp only [hadv]
    exact .ok rfl
  by_cases hquote : x = '"'
  · subst hquote
    cases first with
    | true => exact hkey hr
    | false => exact .refused
  by_cases hcomma : x = ','
  · subst hcomma
    cases first with
    | true => exact .refused
    | false =>
      simp only [Bool.false_eq_true, if_false, hadv]
      rcases c.skipBlank.advance.skipBlank_extend s with hr' | ⟨y, r', hr', hskip', -⟩
      · simp only [hr']
        exact .short (cutShort_failNext rfl)
      simp only [hskip', hr', Cursor.rest_extend, List.cons_append]
      by_cases hy : y = '"'
      · subst hy
        exact hkey hr'
      by_cases hy' : y = '\x7d'
      · subst hy'
        exact .refused
      · simp only [hy, hy', List.cons.injEq, false_and, imp_self, implies_true]
        exact .refused
  · simp only [hclose, hquote, hcomma, List.cons.injEq, false_and, imp_self, implies_true]
    exact .refused

end Json
end GrammarModule
