import GrammarModule.Json.Token
import GrammarModule.Proofs.Json.Escape

/-!
# GrammarModule.Proofs.Json.Located

Where a text is refused. A cursor covers the positions of the places that it can still come to, a
place being so many bytes further on, perhaps inside a character (`Cursor.Covers`). A run tracks
the text when what it gives stands further on and what it refuses it refuses at a position that is
covered (`Tracks`); two such runs one after the other make a third (`Tracks.bind`). The readers of
words, separators, keys and strings track the text.
-/

namespace GrammarModule
namespace Json

variable {β γ : Type}

namespace Position

theorem afterBytes_zero (p : Position) (text : List Char) : p.afterBytes 0 text = p := by
  cases text with
  | nil => rfl
  | cons c rest => rw [afterBytes, if_pos rfl]

/-- Bytes that make up whole characters are passed with them. -/
theorem afterBytes_append (p : Position) (s t : List Char) (n : Nat) :
    p.afterBytes (byteLength s + n) (s ++ t) = (p.afterText s).afterBytes n t := by
  induction s generalizing p with
  | nil => simp [byteLength]
  | cons c s ih =>
    have hsize : 0 < c.utf8Size := c.utf8Size_pos
    rw [List.cons_append, afterBytes, byteLength_cons, if_neg (by omega), if_neg (by omega),
      afterText_cons, ← ih]
    congr 1
    omega

end Position

namespace Cursor

variable {c d e : Cursor} {p : Position}

/-- The position of a place so many bytes further on, or of the end of the text. -/
def Covers (c : Cursor) (p : Position) : Prop := ∃ n, p = c.position.afterBytes n c.rest

/-- Stands further on in the same text, or at the same place. -/
def Reaches (c d : Cursor) : Prop := ∃ t, c.Past t d

theorem Reaches.refl (c : Cursor) : c.Reaches c := ⟨[], .refl c⟩

theorem Reaches.trans (h : c.Reaches d) (h' : d.Reaches e) : c.Reaches e := by
  obtain ⟨s, hs⟩ := h
  obtain ⟨t, ht⟩ := h'
  exact ⟨s ++ t, hs.trans ht⟩

theorem reaches_drop (c : Cursor) (n : Nat) : c.Reaches (c.drop n) := ⟨_, c.past_drop n⟩

theorem reaches_skipBlank (c : Cursor) : c.Reaches c.skipBlank := c.reaches_drop _

theorem reaches_skipDigits (c : Cursor) : c.Reaches c.skipDigits := c.reaches_drop _

theorem reaches_advance (c : Cursor) : c.Reaches c.advance := by
  cases hr : c.rest with
  | nil =>
    rw [advance, hr]
    exact .refl c
  | cons x r => exact ⟨[x], past_advance hr⟩

theorem Reaches.covers (h : c.Reaches d) (hp : d.Covers p) : c.Covers p := by
  obtain ⟨t, ht⟩ := h
  obtain ⟨n, rfl⟩ := hp
  refine ⟨byteLength t + n, ?_⟩
  rw [ht.rest, Position.afterBytes_append, ht.position]

theorem covers_position (c : Cursor) : c.Covers c.position :=
  ⟨0, (Position.afterBytes_zero _ _).symm⟩

/-- The first byte of a character is the whole of it, or ends inside it. -/
theorem covers_nextPosition (c : Cursor) : c.Covers c.nextPosition := by
  cases hr : c.rest with
  | nil =>
    rw [nextPosition, hr]
    exact c.covers_position
  | cons x r =>
    refine ⟨1, ?_⟩
    rw [nextPosition, hr, Position.afterBytes, if_neg Nat.one_ne_zero]
    simp only
    split
    · next hlong =>
      have hx : x ≠ '\n' := by
        rintro rfl
        exact absurd hlong (by decide)
      rw [Position.afterByte, if_neg hx]
    · next hshort =>
      have hone : x.utf8Size = 1 := by
        have := x.utf8Size_pos
        omega
      rw [hone, Nat.sub_self, Position.afterBytes_zero, Position.afterByte, Position.after, hone]

theorem covers_endPosition (c : Cursor) : c.Covers c.endPosition := by
  have hend : c.Reaches ⟨c.endPosition, []⟩ := ⟨c.rest, by simp, rfl⟩
  exact hend.covers (covers_position _)

end Cursor

/-! ## Runs -/

/-- What the run refuses it refuses at a position that the cursor covers. -/
def Located (c : Cursor) (run : Except Error β) : Prop :=
  ∀ e, run = .error e → c.Covers e.position

/-- What a run from `c` gives stands, as `place` tells, further on in the text, and what it refuses
it refuses there. -/
structure Tracks (place : β → Cursor) (c : Cursor) (run : Except Error β) : Prop where
  reaches : ∀ b, run = .ok b → c.Reaches (place b)
  located : Located c run

namespace Located

variable {c d : Cursor} {run : Except Error β}

theorem of_ok (c : Cursor) (b : β) : Located c (.ok b) := by rintro _ ⟨⟩

theorem of_error {e : Error} (h : c.Covers e.position) :
    Located c (.error e : Except Error β) := by
  rintro _ ⟨⟩
  exact h

theorem failHere (c : Cursor) (cause : Cause) : Located c (c.failHere cause : Except Error β) :=
  of_error c.covers_position

theorem failNext (c : Cursor) (cause : Cause) : Located c (c.failNext cause : Except Error β) :=
  of_error c.covers_nextPosition

/-- After some of the text. -/
theorem after (h : c.Reaches d) (hrun : Located d run) : Located c run :=
  fun e he => h.covers (hrun e he)

end Located

namespace Tracks

variable {place : β → Cursor} {place' : γ → Cursor} {c d : Cursor} {run : Except Error β}

theorem of_ok {b : β} (h : c.Reaches (place b)) : Tracks place c (.ok b) where
  reaches := by
    rintro _ ⟨⟩
    exact h
  located := .of_ok c b

theorem of_error {e : Error} (h : c.Covers e.position) : Tracks place c (.error e) where
  reaches := by rintro _ ⟨⟩
  located := .of_error h

theorem failHere (c : Cursor) (cause : Cause) : Tracks place c (c.failHere cause) :=
  of_error c.covers_position

theorem failNext (c : Cursor) (cause : Cause) : Tracks place c (c.failNext cause) :=
  of_error c.covers_nextPosition

theorem after (h : c.Reaches d) (hrun : Tracks place d run) : Tracks place c run where
  reaches b hb := h.trans (hrun.reaches b hb)
  located := hrun.located.after h

theorem located_bind {f : β → Except Error γ} (h : Tracks place c run)
    (hf : ∀ b, Located (place b) (f b)) : Located c (run >>= f) := by
  cases hrun : run with
  | error e => exact .of_error (h.located e hrun)
  | ok b => exact (hf b).after (h.reaches b hrun)

theorem bind {f : β → Except Error γ} (h : Tracks place c run)
    (hf : ∀ b, Tracks place' (place b) (f b)) : Tracks place' c (run >>= f) where
  reaches r hr := by
    obtain ⟨b, hb, hr⟩ := bind_eq_ok_iff.1 hr
    exact (h.reaches b hb).trans ((hf b).reaches r hr)
  located := h.located_bind fun b => (hf b).located

/-- The same place goes with what is made of the result. -/
theorem map {g : β → γ} (h : Tracks place c run) (hg : ∀ b, place' (g b) = place b) :
    Tracks place' c (run >>= fun b => .ok (g b)) :=
  h.bind fun b => of_ok (hg b ▸ .refl _)

end Tracks

/-! ## Words and separators -/

theorem expectWord_tracks (c : Cursor) (w : List Char) : Tracks id c (expectWord c w) := by
  induction w generalizing c with
  | nil => exact .of_ok (.refl c)
  | cons letter letters ih =>
    rw [expectWord]
    split
    · exact .failHere c _
    · split
      · exact .after c.reaches_advance (ih c.advance)
      · exact .failNext c _

theorem nextItem_tracks (first : Bool) (c : Cursor) :
    Tracks Prod.snd c (nextItem first c) := by
  refine .after c.reaches_skipBlank ?_
  rw [nextItem]
  generalize c.skipBlank = d
  simp only
  split
  · exact .failNext d _
  · exact .of_ok d.reaches_advance
  · split
    · exact .of_ok (.refl d)
    · refine .after (d.reaches_advance.trans (Cursor.reaches_skipBlank _)) ?_
      generalize d.advance.skipBlank = e
      split
      · exact .failNext e _
      · exact .failNext e _
      · exact .of_ok (.refl e)
  · split
    · exact .of_ok (.refl d)
    · exact .failNext d _

theorem closeList_tracks (c : Cursor) : Tracks id c (closeList c) := by
  refine .after c.reaches_skipBlank ?_
  rw [closeList]
  generalize c.skipBlank = d
  split
  · exact .failNext d _
  · exact .of_ok d.reaches_advance
  · exact .after (d.reaches_advance.trans (Cursor.reaches_skipBlank _)) (.failNext _ _)
  · exact .failNext d _

theorem expectColon_tracks (c : Cursor) : Tracks id c (expectColon c) := by
  refine .after c.reaches_skipBlank ?_
  rw [expectColon]
  generalize c.skipBlank = d
  split
  · exact .failNext d _
  · exact .of_ok d.reaches_advance
  · exact .failNext d _

theorem covers_closedObjectPosition (c : Cursor) : c.Covers (closedObjectPosition c) := by
  refine c.reaches_skipBlank.covers ?_
  rw [closedObjectPosition]
  generalize c.skipBlank = d
  split
  · exact d.reaches_advance.covers (Cursor.covers_position _)
  · exact d.covers_position

theorem expectEnd_located (c : Cursor) : Located c (expectEnd c) := by
  refine .after c.reaches_skipBlank ?_
  rw [expectEnd]
  generalize c.skipBlank = d
  split
  · exact .of_ok d ()
  · exact .failNext d _

/-! ## Escapes -/

theorem readUnit_tracks (c : Cursor) : Tracks (fun _ => c.drop 4) c (readUnit c) := by
  rw [readUnit]
  split
  · exact .of_error c.covers_endPosition
  · split
    · exact .of_ok (c.reaches_drop 4)
    · exact .of_error ⟨4, rfl⟩

theorem expectInEscape_tracks (c : Cursor) (wanted : Char) :
    Tracks id c (expectInEscape c wanted) := by
  rw [expectInEscape]
  split
  · exact .failHere c _
  · split
    · exact .of_ok c.reaches_advance
    · exact .failNext c _

theorem readEscape_located (c : Cursor) : Located c (readEscape c) := by
  rw [readEscape]
  split
  · exact .failHere c _
  · refine .after c.reaches_advance ((readUnit_tracks c.advance).located_bind fun unit => ?_)
    split
    · exact .failHere _ _
    · split
      · -- a second unit has to follow
        refine (expectInEscape_tracks _ '\\').located_bind fun d => ?_
        refine (expectInEscape_tracks d 'u').located_bind fun digits => ?_
        refine (readUnit_tracks digits).located_bind fun low => ?_
        split
        · exact .of_ok _ _
        · exact .failHere _ _
      · exact .of_ok _ _
  · split
    · exact .of_ok c _
    · exact .failNext c _

theorem skipEscape_located (c : Cursor) : Located c (skipEscape c) := by
  rw [skipEscape]
  split
  · exact .failHere c _
  · exact .after c.reaches_advance ((readUnit_tracks c.advance).located_bind fun _ => .of_ok _ _)
  · split
    · exact .of_ok c _
    · exact .failNext c _

/-! ## Strings -/

theorem readChars_tracks (p : Position) (rest : List Char) :
    Tracks Prod.snd ⟨p, rest⟩ (readChars p rest) := by
  fun_induction readChars p rest with
  | case1 p => exact .failHere _ _
  | case2 p rest => exact .of_ok (Cursor.reaches_advance _)
  | case3 p rest hq ih =>
    have hescape : Tracks (fun r => Cursor.drop ⟨p.after '\\', rest⟩ r.2) ⟨p.after '\\', rest⟩
        (readEscape ⟨p.after '\\', rest⟩) :=
      ⟨fun r _ => Cursor.reaches_drop _ r.2, readEscape_located _⟩
    refine .after (Cursor.reaches_advance _) (hescape.bind fun r => ?_)
    exact (ih r.2).map fun _ => rfl
  | case4 p c rest hq hb hc => exact .failNext ⟨p, c :: rest⟩ _
  | case5 p c rest hq hb hc ih =>
    exact .after (Cursor.reaches_advance ⟨p, c :: rest⟩) (ih.map fun _ => rfl)

theorem skipChars_tracks (p : Position) (rest : List Char) :
    Tracks id ⟨p, rest⟩ (skipChars p rest) := by
  fun_induction skipChars p rest with
  | case1 p => exact .failHere _ _
  | case2 p rest => exact .of_ok (Cursor.reaches_advance _)
  | case3 p rest hq ih =>
    have hescape : Tracks (fun n => Cursor.drop ⟨p.after '\\', rest⟩ n) ⟨p.after '\\', rest⟩
        (skipEscape ⟨p.after '\\', rest⟩) :=
      ⟨fun n _ => Cursor.reaches_drop _ n, skipEscape_located _⟩
    exact .after (Cursor.reaches_advance _) (hescape.bind ih)
  | case4 p c rest hq hb hc => exact .failHere ⟨p, c :: rest⟩ _
  | case5 p c rest hq hb hc ih => exact .after (Cursor.reaches_advance ⟨p, c :: rest⟩) ih

theorem readText_tracks (c : Cursor) : Tracks Prod.snd c (readText c) :=
  (readChars_tracks c.position c.rest).map fun _ => rfl

theorem skipText_tracks (c : Cursor) : Tracks id c (skipText c) :=
  skipChars_tracks c.position c.rest

theorem nextKey_tracks (first : Bool) (c : Cursor) : Tracks Prod.snd c (nextKey first c) := by
  have hkey : ∀ d : Cursor, Tracks Prod.snd d
      (readText d.advance >>= fun r => .ok (some r.1, r.2)) := fun d =>
    .after d.reaches_advance ((readText_tracks d.advance).map fun _ => rfl)
  refine .after c.reaches_skipBlank ?_
  rw [nextKey]
  generalize c.skipBlank = d
  simp only
  split
  · exact .failNext d _
  · exact .of_ok d.reaches_advance
  · split
    · exact hkey d
    · exact .failNext d _
  · split
    · exact .failNext d _
    · refine .after (d.reaches_advance.trans (Cursor.reaches_skipBlank _)) ?_
      generalize d.advance.skipBlank = e
      split
      · exact .failNext e _
      · exact hkey e
      · exact .failNext e _
      · exact .failNext e _
  · exact .failNext d _

end Json
end GrammarModule
