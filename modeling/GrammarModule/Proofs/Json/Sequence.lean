import GrammarModule.Json.Codec
import GrammarModule.Proofs.Json.Field
import GrammarModule.Proofs.Json.Skip

/-!
# GrammarModule.Proofs.Json.Sequence

The loops over the items of a list and the members of an object. `Reads read R` says that a reader
accepts exactly the texts that `R` relates to a value, after any blanks, and gives that value. Such
a reader of items makes the loop over a list accept the texts of `Items` (`readItems_sound`,
`readItems_of_past`); a reader of members that changes a state makes the loop over an object apply
its changes in written order (`readMembers_sound`, `readMembers_of_past`).
-/

namespace GrammarModule
namespace Json

variable {α σ : Type}

/-- Accepts exactly the texts of `R`, after any blanks, with their values. -/
def Reads (read : Cursor → Except Error (α × Cursor)) (R : α → List Char → Prop) : Prop :=
  ∀ v c d, read c = .ok (v, d) ↔ ∃ b t, Blanks b ∧ R v t ∧ c.Past (b ++ t) d

/-- Accepts at least the texts of `R`, after any blanks, with their values; a number among them
needs to be told from what comes after it. -/
def Accepts (read : Cursor → Except Error (α × Cursor)) (R : α → List Char → Prop) : Prop :=
  ∀ ⦃v b t c d⦄, Blanks b → R v t → c.Past (b ++ t) d → d.Ends → read c = .ok (v, d)

theorem Reads.accepts {read : Cursor → Except Error (α × Cursor)} {R : α → List Char → Prop}
    (h : Reads read R) : Accepts read R := by
  intro v b t c d hb ht hp _
  exact (h v c d).2 ⟨b, t, hb, ht, hp⟩

theorem Lead.append {first : Bool} {s b : List Char} (hs : Lead first s) (hb : Blanks b) :
    Lead first (s ++ b) := by
  cases hs with
  | first hb' => exact .first (hb'.append hb)
  | @comma b' b'' hb' hb'' =>
    rw [List.append_assoc, List.cons_append]
    exact .comma hb' (hb''.append hb)

theorem Items.ne_nil {close : Char} {first : Bool} {texts : List (List Char)} {t : List Char}
    (h : Items close first texts t) : t ≠ [] := by
  induction h with
  | close => simp
  | item _ _ ih => simp [ih]

/-- There is a character for every item: the comma before the next one, or what closes. -/
theorem Items.length_le {close : Char} {first : Bool} {texts : List (List Char)} {t : List Char}
    (h : Items close first texts t) : texts.length + (if first then 0 else 1) ≤ t.length := by
  induction h with
  | @close first => cases first <;> simp
  | item hs _ ih =>
    simp only [Bool.false_eq_true, if_false] at ih
    simp only [List.length_cons, List.length_append]
    cases hs with
    | first =>
      simp only [if_true]
      omega
    | comma =>
      simp only [Bool.false_eq_true, if_false, List.length_append, List.length_cons]
      omega

/-! ## Lists -/

theorem readItems_sound {item : Cursor → Except Error (α × Cursor)} {R : α → List Char → Prop}
    (hread : Reads item R) {bound : List Char} {first : Bool} {c d : Cursor} {values : List α}
    (h : readItems item bound first c = .ok (values, d)) :
    ∃ texts t, List.Forall₂ R values texts ∧ Items ']' first texts t ∧ c.Past t d := by
  induction bound generalizing first c values with
  | nil => simp [readItems, Cursor.failNext] at h
  | cons x bound ih =>
    rw [readItems] at h
    obtain ⟨⟨more, e⟩, hnext, h⟩ := bind_eq_ok_iff.1 h
    cases more with
    | false =>
      cases h
      obtain ⟨b, hb, hp⟩ := nextItem_false_iff.1 hnext
      exact ⟨[], _, .nil, .close hb, hp⟩
    | true =>
      obtain ⟨⟨s, hs, hps⟩, -⟩ := nextItem_true_iff.1 hnext
      simp only [if_true] at h
      obtain ⟨⟨v, f⟩, hv, h⟩ := bind_eq_ok_iff.1 h
      obtain ⟨⟨vs, g⟩, hvs, h⟩ := bind_eq_ok_iff.1 h
      cases h
      obtain ⟨b, u, hb, hu, hpu⟩ := (hread v e f).1 hv
      obtain ⟨texts, t, htexts, ht, hpt⟩ := ih hvs
      refine ⟨u :: texts, (s ++ b) ++ (u ++ t), .cons hu htexts, .item (hs.append hb) ht, ?_⟩
      have := (hps.trans hpu).trans hpt
      simpa using this

theorem readItems_of_past {item : Cursor → Except Error (α × Cursor)} {R : α → List Char → Prop}
    (hread : Accepts item R) (hopens : ∀ v t, R v t → Opens t) {bound : List Char} {first : Bool}
    {c d : Cursor} {values : List α} {texts : List (List Char)} {t : List Char}
    (hvalues : List.Forall₂ R values texts) (ht : Items ']' first texts t) (hp : c.Past t d)
    (hbound : c.rest.length ≤ bound.length) :
    readItems item bound first c = .ok (values, d) := by
  induction bound generalizing first c values texts t with
  | nil =>
    have := List.length_pos_of_ne_nil ht.ne_nil
    have := hp.length_rest
    rw [List.length_nil] at hbound
    omega
  | cons x bound ih =>
    rw [readItems]
    cases ht with
    | close hb =>
      cases hvalues
      rw [nextItem_false_iff.2 ⟨_, hb, hp⟩]
      rfl
    | @item _ s u r us hs hr =>
      cases hvalues with
      | @cons v _ vs _ hu hus =>
        obtain ⟨e, he, hp'⟩ := Cursor.past_append_iff.1 hp
        obtain ⟨f, hf, hpr⟩ := Cursor.past_append_iff.1 hp'
        have hlen := he.length_rest
        have hlen' := hf.length_rest
        have hpos : 0 < u.length := by
          obtain ⟨y, w, rfl, -⟩ := hopens v u hu
          simp
        have hends : f.Ends := Items.ends .list (s := []) hr (by simpa using hpr)
        rw [List.length_cons] at hbound
        rw [nextItem_true_iff.2 ⟨⟨s, hs, he⟩, ((hopens v u hu).stands hf).1⟩]
        simp only [bind, Except.bind, if_true, hread (b := []) blanks_nil hu hf hends,
          ih hus hr hpr (by omega)]

/-! ## Objects -/

/-- A reader of one member, called after its key, makes at least the changes of `Step`. -/
def AcceptsMember (member : σ → String → Cursor → Except Error (σ × Cursor))
    (Step : σ → String × List Char → σ → Prop) : Prop :=
  ∀ ⦃s s' key c d b b' t⦄, Blanks b → Blanks b' → c.Past (b ++ ':' :: (b' ++ t)) d →
    Step s (key, t) s' → d.Ends → member s key c = .ok (s', d)

/-- What a reader of one member does to the state, by the key and the text of the value. -/
structure ReadsMember (member : σ → String → Cursor → Except Error (σ × Cursor))
    (Step : σ → String × List Char → σ → Prop) : Prop where
  sound : ∀ {s s' key c d}, member s key c = .ok (s', d) →
    ∃ b b' t, Blanks b ∧ Blanks b' ∧ c.Past (b ++ ':' :: (b' ++ t)) d ∧ Step s (key, t) s'
  accepts : AcceptsMember member Step

theorem readMembers_sound {member : σ → String → Cursor → Except Error (σ × Cursor)}
    {Step : σ → String × List Char → σ → Prop} (hread : ReadsMember member Step)
    {bound : List Char} {first : Bool} {s s' : σ} {c d : Cursor}
    (h : readMembers member bound first s c = .ok (s', d)) :
    ∃ ms texts t, List.Forall₂ MemberText ms texts ∧ Items '\x7d' first texts t ∧ c.Past t d ∧
      Steps Step s ms s' := by
  induction bound generalizing first s c with
  | nil => simp [readMembers, Cursor.failNext] at h
  | cons x bound ih =>
    rw [readMembers] at h
    obtain ⟨⟨key?, e⟩, hnext, h⟩ := bind_eq_ok_iff.1 h
    cases key? with
    | none =>
      cases h
      obtain ⟨b, hb, hp⟩ := nextKey_none_iff.1 hnext
      exact ⟨[], [], _, .nil, .close hb, hp, .nil⟩
    | some key =>
      obtain ⟨lead, k, hlead, hk, hpk⟩ := nextKey_some_iff.1 hnext
      obtain ⟨⟨s1, f⟩, hmember, h⟩ := bind_eq_ok_iff.1 h
      obtain ⟨b, b', t, hb, hb', hpt, hstep⟩ := hread.sound hmember
      obtain ⟨ms, texts, r, hms, hr, hpr, hsteps⟩ := ih h
      refine ⟨(key, t) :: ms, (k ++ (b ++ ':' :: (b' ++ t))) :: texts,
        lead ++ ((k ++ (b ++ ':' :: (b' ++ t))) ++ r),
        .cons ⟨k, hk, b, b', hb, hb', rfl⟩ hms, .item hlead hr, ?_, .cons hstep hsteps⟩
      have := (hpk.trans hpt).trans hpr
      simpa using this

theorem readMembers_of_past {member : σ → String → Cursor → Except Error (σ × Cursor)}
    {Step : σ → String × List Char → σ → Prop} (hread : AcceptsMember member Step)
    {bound : List Char} {first : Bool} {s s' : σ} {c d : Cursor}
    {ms : List (String × List Char)} {texts : List (List Char)} {t : List Char}
    (hms : List.Forall₂ MemberText ms texts) (ht : Items '\x7d' first texts t) (hp : c.Past t d)
    (hsteps : Steps Step s ms s') (hbound : c.rest.length ≤ bound.length) :
    readMembers member bound first s c = .ok (s', d) := by
  induction bound generalizing first s c ms texts t with
  | nil =>
    have := List.length_pos_of_ne_nil ht.ne_nil
    have := hp.length_rest
    rw [List.length_nil] at hbound
    omega
  | cons x bound ih =>
    rw [readMembers]
    cases ht with
    | close hb =>
      cases hms
      cases hsteps
      rw [nextKey_none_iff.2 ⟨_, hb, hp⟩]
      rfl
    | @item _ lead u r us hlead hr =>
      cases hms with
      | @cons m _ ms _ hm hms =>
        cases hsteps with
        | @cons _ s1 _ _ _ hstep hsteps =>
          obtain ⟨k, hk, b, b', hb, hb', rfl⟩ := hm
          have hsplit : lead ++ ((k ++ (b ++ ':' :: (b' ++ m.2))) ++ r) =
              (lead ++ k) ++ ((b ++ ':' :: (b' ++ m.2)) ++ r) := by simp
          rw [hsplit] at hp
          obtain ⟨e, he, hp'⟩ := Cursor.past_append_iff.1 hp
          obtain ⟨f, hf, hpr⟩ := Cursor.past_append_iff.1 hp'
          have hends : f.Ends := Items.ends .object (s := []) hr (by simpa using hpr)
          have hlen := he.length_rest
          have hlen' := hf.length_rest
          simp only [List.length_append, List.length_cons] at hlen'
          rw [List.length_cons] at hbound
          simp only [nextKey_some_iff.2 ⟨lead, k, hlead, hk, he⟩, bind, Except.bind,
            hread hb hb' hf hstep hends]
          exact ih hms hr hpr hsteps (by omega)

end Json
end GrammarModule
