import GrammarModule.Proofs.Json.Sequence
import GrammarModule.Proofs.Json.Table
import GrammarModule.Proofs.Json.Written

/-!
# GrammarModule.Proofs.Json.Law

The law of a codec: it reads exactly the texts of a relation, with their values, and what it writes
is one of them. Each codec that is built from others keeps the law. A lawful codec reads a whole
text exactly when that is a document of the relation (`Codec.Law.parse_eq_ok_iff`), and so reads
back whatever it writes (`Codec.Law.parse_render`).
-/

namespace GrammarModule
namespace Json

variable {α : Type}

/-- The texts that a codec reads and writes are those of `R`. -/
structure Codec.Law (codec : Codec α) (R : α → List Char → Prop) : Prop where
  reads : Reads codec.read R
  opens : ∀ v t, R v t → Opens t
  writes : ∀ v, R v (codec.write v).compact

theorem refuseValue_ne_ok {expected : Expected} {c : Cursor} {r : α × Cursor} :
    refuseValue expected c ≠ .ok r := by
  intro h
  simp only [refuseValue] at h
  split at h
  · cases h
  · obtain ⟨_, -, h⟩ := bind_eq_ok_iff.1 h
    cases h
  · obtain ⟨_, -, h⟩ := bind_eq_ok_iff.1 h
    cases h
  · obtain ⟨_, -, h⟩ := bind_eq_ok_iff.1 h
    cases h
  · obtain ⟨_, -, h⟩ := bind_eq_ok_iff.1 h
    cases h
  · obtain ⟨_, -, h⟩ := bind_eq_ok_iff.1 h
    cases h
  · cases h
  · cases h
  · split at h
    · obtain ⟨_, -, h⟩ := bind_eq_ok_iff.1 h
      cases h
    · cases h

/-! ## Values without parts -/

theorem reads_flag : Reads readFlag FlagText := by
  intro v c d
  constructor
  · intro h
    obtain ⟨b, hb, hp⟩ := c.exists_past_skipBlank
    simp only [readFlag] at h
    split at h
    · next hr =>
      obtain ⟨e, he, h⟩ := bind_eq_ok_iff.1 h
      cases h
      refine ⟨b, _, hb, rfl, hp.trans ?_⟩
      exact (Cursor.past_advance hr).trans (expectWord_eq_ok_iff.1 he)
    · next hr =>
      obtain ⟨e, he, h⟩ := bind_eq_ok_iff.1 h
      cases h
      refine ⟨b, _, hb, rfl, hp.trans ?_⟩
      exact (Cursor.past_advance hr).trans (expectWord_eq_ok_iff.1 he)
    · exact absurd h refuseValue_ne_ok
  · rintro ⟨b, t, hb, rfl, hp⟩
    cases v with
    | false =>
      obtain ⟨hr, hw⟩ := Cursor.rest_skipBlank_of_past hp hb (by decide)
      simp only [readFlag, hr, expectWord_eq_ok_iff.2 hw]
      rfl
    | true =>
      obtain ⟨hr, hw⟩ := Cursor.rest_skipBlank_of_past hp hb (by decide)
      simp only [readFlag, hr, expectWord_eq_ok_iff.2 hw]
      rfl

theorem flag_law : Codec.flag.Law FlagText where
  reads := reads_flag
  opens := by
    rintro v t rfl
    cases v <;> exact ⟨_, _, rfl, by decide, by decide, by decide⟩
  writes v := by cases v <;> rfl

theorem TextLiteral.opens {s : String} {t : List Char} (h : TextLiteral s t) : Opens t := by
  obtain ⟨r, -, rfl⟩ := h
  exact ⟨'"', _, rfl, by decide, by decide, by decide⟩

theorem reads_text : Reads readString TextLiteral := by
  intro s c d
  constructor
  · intro h
    obtain ⟨b, hb, hp⟩ := c.exists_past_skipBlank
    simp only [readString] at h
    split at h
    · next hr =>
      obtain ⟨t, ht, hpt⟩ := past_textLiteral_iff.2 ⟨by rw [hr]; rfl, h⟩
      exact ⟨b, t, hb, ht, hp.trans hpt⟩
    · exact absurd h refuseValue_ne_ok
  · rintro ⟨b, t, hb, ht, hp⟩
    obtain ⟨m, hm, hpt⟩ := Cursor.past_append_iff.1 hp
    have hskip := hm.skipBlank_eq hb (ht.opens.stands hpt).1.solid
    obtain ⟨hhead, hread⟩ := past_textLiteral_iff.1 ⟨t, ht, hpt⟩
    obtain ⟨r, hr⟩ := List.head?_eq_some_iff.1 hhead
    simp only [readString, hskip, hr, hread]

theorem text_law : Codec.text.Law TextLiteral where
  reads := reads_text
  opens _ _ h := h.opens
  writes s := textLiteral_literal s

/-! ## Lists -/

theorem IsList.opens {items : List (List Char)} {t : List Char} (h : IsList items t) :
    Opens t := by
  obtain ⟨r, rfl, -⟩ := h
  exact ⟨'[', r, rfl, by decide, by decide, by decide⟩

theorem IsObject.opens {members : List (List Char)} {t : List Char} (h : IsObject members t) :
    Opens t := by
  obtain ⟨r, rfl, -⟩ := h
  exact ⟨'\x7b', r, rfl, by decide, by decide, by decide⟩

theorem reads_list {item : Cursor → Except Error (α × Cursor)} {R : α → List Char → Prop}
    (hread : Reads item R) (hopens : ∀ v t, R v t → Opens t) :
    Reads (readList item) (ListText R) := by
  intro values c d
  constructor
  · intro h
    obtain ⟨b, hb, hp⟩ := c.exists_past_skipBlank
    simp only [readList] at h
    split at h
    · next hr =>
      obtain ⟨texts, t, htexts, ht, hpt⟩ := readItems_sound hread h
      exact ⟨b, '[' :: t, hb, ⟨texts, htexts, t, rfl, ht⟩,
        hp.trans ((Cursor.past_advance hr).trans hpt)⟩
    · exact absurd h refuseValue_ne_ok
  · rintro ⟨b, _, hb, ⟨texts, htexts, t, rfl, ht⟩, hp⟩
    obtain ⟨hr, hpt⟩ := Cursor.rest_skipBlank_of_past hp hb (by decide)
    simp only [readList, hr]
    exact readItems_of_past hread.accepts hopens htexts ht hpt
      (Nat.le_of_eq (congrArg List.length hpt.rest))

theorem list_law {item : Codec α} {R : α → List Char → Prop} (h : item.Law R) :
    (Codec.list item).Law (ListText R) where
  reads := reads_list h.reads h.opens
  opens := by
    rintro values t ⟨texts, -, ht⟩
    exact ht.opens
  writes values := by
    refine ⟨values.map fun v => (item.write v).compact, ?_, ?_⟩
    · rw [List.forall₂_map_right_iff, List.forall₂_same]
      exact fun v _ => h.writes v
    · have := isList_compact (values.map item.write)
      rwa [List.map_map] at this

/-! ## Tables -/

/-- A member of a table is stored under its key. -/
def StoresEntry (R : α → List Char → Prop) (t : Table α) (m : String × List Char)
    (t' : Table α) : Prop :=
  ∃ v, R v m.2 ∧ t' = t.insert m.1 v

theorem readsMember_table {item : Cursor → Except Error (α × Cursor)} {R : α → List Char → Prop}
    (hread : Reads item R) :
    ReadsMember (fun (table : Table α) key c => do
      let (value, c) ← item (← expectColon c)
      .ok (table.insert key value, c)) (StoresEntry R) where
  sound := by
    intro table table' key c d h
    obtain ⟨e, he, h⟩ := bind_eq_ok_iff.1 h
    obtain ⟨⟨v, f⟩, hv, h⟩ := bind_eq_ok_iff.1 h
    cases h
    obtain ⟨b, hb, hp⟩ := expectColon_eq_ok_iff.1 he
    obtain ⟨b', t, hb', ht, hpt⟩ := (hread v e d).1 hv
    exact ⟨b, b', t, hb, hb', by simpa using hp.trans hpt, v, ht, rfl⟩
  accepts := by
    rintro table _ key c d b b' t hb hb' hp ⟨v, hv, rfl⟩ -
    rw [List.append_cons] at hp
    obtain ⟨e, he, hpt⟩ := Cursor.past_append_iff.1 hp
    simp only [expectColon_eq_ok_iff.2 ⟨b, hb, he⟩, (hread v e d).2 ⟨b', t, hb', hv, hpt⟩, bind,
      Except.bind]

/-- A table filled in written order, in terms of the values under its keys. -/
theorem steps_storesEntry_iff {R : α → List Char → Prop} {t t' : Table α}
    {ms : List (String × List Char)} :
    Steps (StoresEntry R) t ms t' ↔ ∃ values : List (String × α),
      List.Forall₂ (fun v m => v.1 = m.1 ∧ R v.2 m.2) values ms ∧
      t' = values.foldl (fun t v => t.insert v.1 v.2) t := by
  constructor
  · intro h
    induction h with
    | nil => exact ⟨[], .nil, rfl⟩
    | @cons _ _ _ m _ hm _ ih =>
      obtain ⟨v, hv, rfl⟩ := hm
      obtain ⟨values, hvalues, rfl⟩ := ih
      exact ⟨(m.1, v) :: values, .cons ⟨rfl, hv⟩ hvalues, rfl⟩
  · rintro ⟨values, hvalues, rfl⟩
    induction hvalues generalizing t with
    | nil => exact .nil
    | @cons v m _ _ hv _ ih =>
      refine .cons ⟨v.2, hv.2, ?_⟩ ih
      rw [← hv.1]

theorem reads_table {item : Cursor → Except Error (α × Cursor)} {R : α → List Char → Prop}
    (hread : Reads item R) : Reads (readTable item) (TableText R) := by
  intro table c d
  constructor
  · intro h
    obtain ⟨b, hb, hp⟩ := c.exists_past_skipBlank
    simp only [readTable] at h
    split at h
    · next hr =>
      obtain ⟨ms, texts, t, hms, ht, hpt, hsteps⟩ := readMembers_sound (readsMember_table hread) h
      obtain ⟨values, hvalues, rfl⟩ := steps_storesEntry_iff.1 hsteps
      refine ⟨b, '\x7b' :: t, hb, ⟨ms, values, ⟨texts, hms, t, rfl, ht⟩, hvalues, ?_⟩,
        hp.trans ((Cursor.past_advance hr).trans hpt)⟩
      intro key
      rw [Table.get?_foldl_insert, Table.get?_empty, Option.or_none]
    · exact absurd h refuseValue_ne_ok
  · rintro ⟨b, _, hb, ⟨ms, values, ⟨texts, hms, t, rfl, ht⟩, hvalues, hlast⟩, hp⟩
    obtain ⟨hr, hpt⟩ := Cursor.rest_skipBlank_of_past hp hb (by decide)
    have htable : table = values.foldl (fun t v => t.insert v.1 v.2) ∅ := by
      apply Table.ext_get?
      intro key
      rw [hlast, Table.get?_foldl_insert, Table.get?_empty, Option.or_none]
    simp only [readTable, hr]
    exact readMembers_of_past (readsMember_table hread).accepts hms ht hpt
      (steps_storesEntry_iff.2 ⟨values, hvalues, htable⟩)
      (Nat.le_of_eq (congrArg List.length hpt.rest))

theorem table_law {item : Codec α} {R : α → List Char → Prop} (h : item.Law R) :
    (Codec.table item).Law (TableText R) where
  reads := reads_table h.reads
  opens := by
    rintro table t ⟨ms, values, ⟨texts, -, ht⟩, -⟩
    exact ht.opens
  writes table := by
    refine ⟨table.entries.map fun e => (e.1, (item.write e.2).compact), table.entries, ?_, ?_, ?_⟩
    · have := objectText_compact (table.entries.map fun e => (e.1, item.write e.2))
      rwa [List.map_map] at this
    · rw [List.forall₂_map_right_iff, List.forall₂_same]
      exact fun e _ => ⟨rfl, h.writes e.2⟩
    · intro key
      rw [lastUnder_eq_valueAt table.sorted, Table.get?_eq]

/-! ## Optional values -/

theorem optional_law {item : Codec α} {R : α → List Char → Prop} (h : item.Law R)
    (hnull : ∀ v t, R v t → t.head? ≠ some 'n') :
    (Codec.optional item).Law (OptionalText R) where
  reads := by
    intro value c d
    constructor
    · intro hread
      obtain ⟨b, hb, hp⟩ := c.exists_past_skipBlank
      simp only [Codec.optional, readOptional] at hread
      split at hread
      · next hr =>
        obtain ⟨e, he, hread⟩ := bind_eq_ok_iff.1 hread
        cases hread
        exact ⟨b, _, hb, .null,
          hp.trans ((Cursor.past_advance hr).trans (expectWord_eq_ok_iff.1 he))⟩
      · obtain ⟨⟨v, e⟩, hv, hread⟩ := bind_eq_ok_iff.1 hread
        cases hread
        obtain ⟨b', t, hb', ht, hpt⟩ := (h.reads v _ _).1 hv
        exact ⟨b ++ b', t, hb.append hb', .value ht, by simpa using hp.trans hpt⟩
    · rintro ⟨b, t, hb, ht, hp⟩
      cases ht with
      | null =>
        obtain ⟨hr, hw⟩ := Cursor.rest_skipBlank_of_past hp hb (by decide)
        simp only [Codec.optional, readOptional, hr, expectWord_eq_ok_iff.2 hw]
        rfl
      | @value v _ hv =>
        obtain ⟨m, hm, hpt⟩ := Cursor.past_append_iff.1 hp
        have hskip := hm.skipBlank_eq hb ((h.opens v t hv).stands hpt).1.solid
        obtain ⟨x, r, rfl, -⟩ := h.opens v t hv
        simp only [Codec.optional, readOptional, hskip]
        split
        · next hr =>
          rw [hpt.rest] at hr
          cases hr
          exact absurd rfl (hnull v _ hv)
        · rw [(h.reads v m d).2 ⟨[], _, blanks_nil, hv, hpt⟩]
          rfl
  opens := by
    intro value t ht
    cases ht with
    | null => exact ⟨'n', _, rfl, by decide, by decide, by decide⟩
    | value hv => exact h.opens _ _ hv
  writes value := by
    cases value with
    | none => exact .null
    | some v => exact .value (h.writes v)

/-! ## Whole texts -/

theorem Blanks.ends {b : List Char} {c : Cursor} (h : Blanks b) (hc : c.rest = b) : c.Ends := by
  intro x hx
  rw [hc] at hx
  have hblank := h x (List.mem_of_mem_head? hx)
  simp only [List.mem_cons, List.not_mem_nil, or_false] at hblank
  rcases hblank with rfl | rfl | rfl | rfl <;> decide

/-- A document is read as its value. -/
theorem Accepts.parse_eq_ok {codec : Codec α} {R : α → List Char → Prop} {source : String} {v : α}
    (h : Accepts codec.read R) (hv : Document R v source) : codec.parse source = .ok v := by
  obtain ⟨b, t, b', hb, ht, hb', hsource⟩ := hv
  have hp : (Cursor.ofText source).Past (b ++ t)
      ⟨(Cursor.ofText source).position.afterText (b ++ t), b'⟩ := by
    refine ⟨?_, rfl⟩
    rw [List.append_assoc]
    exact hsource
  rw [Codec.parse, bind_eq_ok_iff]
  refine ⟨_, h hb ht hp (hb'.ends rfl), ?_⟩
  rw [bind_eq_ok_iff]
  exact ⟨(), expectEnd_eq_ok_iff.2 hb', rfl⟩

namespace Codec.Law

variable {codec : Codec α} {R : α → List Char → Prop}

/-- A text is read exactly when it is a document, and then as the value of the document. -/
theorem parse_eq_ok_iff (h : codec.Law R) {source : String} {v : α} :
    codec.parse source = .ok v ↔ Document R v source := by
  constructor
  · rw [Codec.parse, bind_eq_ok_iff]
    rintro ⟨⟨w, d⟩, hread, hend⟩
    obtain ⟨⟨⟩, hd, hw⟩ := bind_eq_ok_iff.1 hend
    cases hw
    obtain ⟨b, t, hb, ht, hp⟩ := (h.reads v _ _).1 hread
    refine ⟨b, t, d.rest, hb, ht, expectEnd_eq_ok_iff.1 hd, ?_⟩
    rw [← List.append_assoc]
    exact hp.rest
  · exact h.reads.accepts.parse_eq_ok

theorem document_render (h : codec.Law R) (v : α) : Document R v (codec.render v) :=
  ⟨[], (codec.write v).compact, [], blanks_nil, h.writes v, blanks_nil, by
    simp [Codec.render, Value.compactText]⟩

/-- What is written is read back. -/
theorem parse_render (h : codec.Law R) (v : α) : codec.parse (codec.render v) = .ok v :=
  h.parse_eq_ok_iff.2 (h.document_render v)

/-- A document is a text of one value only. -/
theorem document_unique (h : codec.Law R) {source : String} {v w : α}
    (hv : Document R v source) (hw : Document R w source) : v = w :=
  Except.ok.inj ((h.parse_eq_ok_iff.2 hv).symm.trans (h.parse_eq_ok_iff.2 hw))

theorem render_inj (h : codec.Law R) {v w : α} : codec.render v = codec.render w ↔ v = w := by
  constructor
  · intro heq
    exact h.document_unique (h.document_render v) (heq ▸ h.document_render w)
  · rintro rfl
    rfl

end Codec.Law

end Json
end GrammarModule
