import GrammarModule.Proofs.Json.Escape

/-!
# GrammarModule.Proofs.Json.Literal

String literals, after their opening quote. Reading gives the text that the literal spells
(`readText_eq_ok_iff`), skipping passes every literal of the right form (`skipText_eq_ok_iff`).
Both follow the characters one unit at a time, a unit being a plain character or a whole escape.
-/

namespace GrammarModule
namespace Json

theorem isPlain_of_ne {c : Char} (hq : c ≠ '"') (hb : c ≠ '\\') (hc : ¬c < ' ') : IsPlain c :=
  ⟨hq, hb, Char.not_lt.1 hc⟩

/-- A character between quotes is written plainly, or its text is an escape. -/
theorem CharText.cases_head {c : Char} {t : List Char} (h : CharText c t) :
    (IsPlain c ∧ t = [c]) ∨ ∃ s, t = '\\' :: s ∧ CharText c ('\\' :: s) := by
  cases h with
  | plain h => exact .inl ⟨h, rfl⟩
  | short h => exact .inr ⟨_, rfl, .short h⟩
  | unit h => exact .inr ⟨_, rfl, .unit h⟩
  | pair hs ht hh hl hc => exact .inr ⟨_, rfl, .pair hs ht hh hl hc⟩

/-! ## Reading -/

theorem readChars_sound {p : Position} {rest : List Char} {cs : List Char} {d : Cursor}
    (h : readChars p rest = .ok (cs, d)) :
    ∃ t, CharsText cs t ∧ (Cursor.mk p rest).Past (t ++ ['"']) d := by
  fun_induction readChars p rest generalizing cs d with
  | case1 => cases h
  | case2 p rest =>
    cases h
    exact ⟨[], .nil, ⟨rfl, rfl⟩⟩
  | case3 p rest hq ih =>
    obtain ⟨⟨x, n⟩, hx, h⟩ := bind_eq_ok_iff.1 h
    obtain ⟨⟨text, tail⟩, ht, h⟩ := bind_eq_ok_iff.1 h
    cases h
    obtain ⟨s, hs, -, hps⟩ := readEscape_sound hx
    obtain ⟨t, htext, hpt⟩ := ih _ ht
    have hb : (Cursor.mk p ('\\' :: rest)).Past ['\\'] ⟨p.after '\\', rest⟩ := ⟨rfl, rfl⟩
    refine ⟨('\\' :: s) ++ t, .cons hs htext, ?_⟩
    rw [List.append_assoc]
    exact (hb.trans hps).trans hpt
  | case4 => cases h
  | case5 p c rest hq hb hc ih =>
    obtain ⟨⟨text, tail⟩, ht, h⟩ := bind_eq_ok_iff.1 h
    cases h
    obtain ⟨t, htext, hpt⟩ := ih ht
    have hp : (Cursor.mk p (c :: rest)).Past [c] ⟨p.after c, rest⟩ := ⟨rfl, rfl⟩
    exact ⟨[c] ++ t, .cons (.plain (isPlain_of_ne hq hb hc)) htext, hp.trans hpt⟩

theorem readChars_of_past {c d : Cursor} {cs t : List Char} (h : CharsText cs t)
    (hp : c.Past (t ++ ['"']) d) : readChars c.position c.rest = .ok (cs, d) := by
  induction h generalizing c with
  | nil =>
    rw [List.nil_append] at hp
    rw [hp.rest, ← hp.advance_eq]
    simp [readChars, Cursor.advance, hp.rest]
  | @cons x cs t r hx _ ih =>
    rw [List.append_assoc] at hp
    obtain ⟨e, he, hd⟩ := Cursor.past_append_iff.1 hp
    have hr := ih hd
    rcases hx.cases_head with ⟨hplain, rfl⟩ | ⟨s, rfl, hs⟩
    · obtain ⟨hq, hb, hlt⟩ := hplain
      rw [he.rest, List.singleton_append, readChars, if_neg hq, if_neg hb,
        if_neg (Char.not_lt.2 hlt)]
      have hpos : e.position = c.position.after x := he.position
      rw [← hpos, hr]
      rfl
    · obtain ⟨m, hm, hme⟩ := Cursor.past_cons_iff.1 he
      rw [hm.rest, List.singleton_append, readChars, if_neg (by decide), if_pos rfl, hm.eq_after,
        readEscape_of_past hs hme]
      have hdrop := hme.drop_eq
      simp only [bind, Except.bind, hdrop]
      rw [show m.rest.drop s.length = e.rest from congrArg Cursor.rest hdrop, hr]

/-- A literal is read exactly when it spells the text that is given. -/
theorem readText_eq_ok_iff {c d : Cursor} {s : String} :
    readText c = .ok (s, d) ↔ ∃ t, CharsText s.toList t ∧ c.Past (t ++ ['"']) d := by
  rw [readText, bind_eq_ok_iff]
  constructor
  · rintro ⟨⟨cs, e⟩, h, he⟩
    cases he
    rw [String.toList_ofList]
    exact readChars_sound h
  · rintro ⟨t, ht, hp⟩
    refine ⟨(s.toList, d), readChars_of_past ht hp, ?_⟩
    simp only [String.ofList_toList]

/-! ## Skipping -/

theorem skipChars_sound {p : Position} {rest : List Char} {d : Cursor}
    (h : skipChars p rest = .ok d) :
    ∃ t, StringBody t ∧ (Cursor.mk p rest).Past (t ++ ['"']) d := by
  fun_induction skipChars p rest generalizing d with
  | case1 => cases h
  | case2 p rest =>
    cases h
    exact ⟨[], .nil, ⟨rfl, rfl⟩⟩
  | case3 p rest hq ih =>
    obtain ⟨n, hn, h⟩ := bind_eq_ok_iff.1 h
    obtain ⟨s, hs, -, hps⟩ := skipEscape_sound hn
    obtain ⟨t, ht, hpt⟩ := ih _ h
    have hb : (Cursor.mk p ('\\' :: rest)).Past ['\\'] ⟨p.after '\\', rest⟩ := ⟨rfl, rfl⟩
    refine ⟨'\\' :: (s ++ t), .escape hs ht, ?_⟩
    have := (hb.trans hps).trans hpt
    simpa using this
  | case4 => cases h
  | case5 p c rest hq hb hc ih =>
    obtain ⟨t, ht, hpt⟩ := ih h
    have hp : (Cursor.mk p (c :: rest)).Past [c] ⟨p.after c, rest⟩ := ⟨rfl, rfl⟩
    exact ⟨c :: t, .plain (isPlain_of_ne hq hb hc) ht, hp.trans hpt⟩

theorem skipChars_of_past {c d : Cursor} {t : List Char} (h : StringBody t)
    (hp : c.Past (t ++ ['"']) d) : skipChars c.position c.rest = .ok d := by
  induction h generalizing c with
  | nil =>
    rw [List.nil_append] at hp
    rw [hp.rest, ← hp.advance_eq]
    simp [skipChars, Cursor.advance, hp.rest]
  | @plain x t hx _ ih =>
    obtain ⟨e, he, hd⟩ := Cursor.past_cons_iff.1 hp
    obtain ⟨hq, hb, hlt⟩ := hx
    rw [he.rest, List.singleton_append, skipChars, if_neg hq, if_neg hb,
      if_neg (Char.not_lt.2 hlt)]
    have hpos : e.position = c.position.after x := he.position
    rw [← hpos]
    exact ih hd
  | @escape s t hs _ ih =>
    rw [List.cons_append, List.append_assoc] at hp
    obtain ⟨m, hm, hp'⟩ := Cursor.past_cons_iff.1 hp
    obtain ⟨e, hme, hd⟩ := Cursor.past_append_iff.1 hp'
    rw [hm.rest, List.singleton_append, skipChars, if_neg (by decide), if_pos rfl, hm.eq_after,
      skipEscape_of_past hs hme]
    have hdrop := hme.drop_eq
    simp only [bind, Except.bind, hdrop]
    rw [show m.rest.drop s.length = e.rest from congrArg Cursor.rest hdrop]
    exact ih hd

theorem skipText_eq_ok_iff {c d : Cursor} :
    skipText c = .ok d ↔ ∃ t, StringBody t ∧ c.Past (t ++ ['"']) d := by
  constructor
  · exact skipChars_sound
  · rintro ⟨t, ht, hp⟩
    exact skipChars_of_past ht hp

end Json
end GrammarModule
