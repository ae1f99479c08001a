import GrammarModule.Json.Document
import GrammarModule.Proofs.Json.Law

/-!
# GrammarModule.Proofs.Json.Pretty

Documents whose numbers are counts, and their pretty texts. `DocumentText` relates a document to its
texts, nested as deep as a reader allows; the reader accepts all of them (`accepts_read`), the
pretty text is one of them (`documentText_pretty`), and so a pretty text is read back
(`parse_document`, `parse_prettyText`).
-/

namespace GrammarModule
namespace Json
namespace Value

/-- A count of 64 bits. -/
def IsCount (value : Number) : Prop := ∃ n, n < UInt64.size ∧ value = .whole n

/-- The numeral of a count. -/
def CountText (value : Number) (t : List Char) : Prop :=
  ∃ n, n < UInt64.size ∧ value = .whole n ∧ t = Nat.toDigits 10 n

/-- A document whose numbers are counts, nested at most so deep. -/
def Plain : Nat → Value → Prop
  | _, .null => True
  | _, .boolean _ => True
  | _, .number value => IsCount value
  | _, .text _ => True
  | depth + 1, .list items => ∀ item ∈ items, Plain depth item
  | depth + 1, .object members => ∀ member ∈ members, Plain depth member.2
  | _, _ => False

/-- A text of a document whose numbers are counts, nested at most so deep. -/
def DocumentText : Nat → Value → List Char → Prop
  | _, .null, t => t = ['n', 'u', 'l', 'l']
  | _, .boolean value, t => FlagText value t
  | _, .number value, t => CountText value t
  | _, .text value, t => TextLiteral value t
  | depth + 1, .list items, t => ListText (DocumentText depth) items t
  | depth + 1, .object members, t => ∃ texts, ObjectText texts t ∧
      List.Forall₂ (fun v m => v.1 = m.1 ∧ DocumentText depth v.2 m.2) members texts
  | _, _, _ => False

variable {depth : Nat} {v : Value} {t : List Char}

theorem documentText_null_iff : DocumentText depth .null t ↔ t = ['n', 'u', 'l', 'l'] := by
  cases depth <;> rfl

theorem documentText_boolean_iff {value : Bool} :
    DocumentText depth (.boolean value) t ↔ FlagText value t := by
  cases depth <;> rfl

theorem documentText_text_iff {value : String} :
    DocumentText depth (.text value) t ↔ TextLiteral value t := by
  cases depth <;> rfl

theorem documentText_number_iff {value : Number} :
    DocumentText depth (.number value) t ↔ CountText value t := by
  cases depth <;> rfl

theorem CountText.opens {value : Number} (h : CountText value t) : Opens t := by
  obtain ⟨n, -, -, rfl⟩ := h
  obtain ⟨x, r, hn, hx⟩ := (digits_toDigits n).head
  rw [hn]
  exact opens_of_digit hx

theorem DocumentText.opens (h : DocumentText depth v t) : Opens t := by
  cases v with
  | null =>
    obtain rfl := documentText_null_iff.1 h
    exact ⟨_, _, rfl, by decide, by decide, by decide⟩
  | boolean value => exact flag_law.opens value t (documentText_boolean_iff.1 h)
  | number value => exact (documentText_number_iff.1 h).opens
  | text value => exact (documentText_text_iff.1 h).opens
  | list items =>
    cases depth with
    | zero => cases h
    | succ depth =>
      obtain ⟨texts, -, ht⟩ := h
      exact ht.opens
  | object members =>
    cases depth with
    | zero => cases h
    | succ depth =>
      obtain ⟨texts, ⟨_, -, ht⟩, -⟩ := h
      exact ht.opens

/-! ## Reading -/

/-- A member is put before the earlier ones. -/
def PutsMember (R : Value → List Char → Prop) (earlier : List (String × Value))
    (m : String × List Char) (members : List (String × Value)) : Prop :=
  ∃ v, R v m.2 ∧ members = (m.1, v) :: earlier

theorem acceptsMember_item {item : Cursor → Except Error (Value × Cursor)}
    {R : Value → List Char → Prop} (hread : Accepts item R) :
    AcceptsMember (fun (earlier : List (String × Value)) key c => do
      let (value, c) ← item (← expectColon c)
      .ok ((key, value) :: earlier, c)) (PutsMember R) := by
  rintro earlier _ key c d b b' t hb hb' hp ⟨v, hv, rfl⟩ hends
  rw [List.append_cons] at hp
  obtain ⟨e, he, hpt⟩ := Cursor.past_append_iff.1 hp
  simp only [expectColon_eq_ok_iff.2 ⟨b, hb, he⟩, hread hb' hv hpt hends, bind, Except.bind]

theorem steps_putsMember {R : Value → List Char → Prop} {members earlier : List (String × Value)}
    {ms : List (String × List Char)}
    (h : List.Forall₂ (fun v m => v.1 = m.1 ∧ R v.2 m.2) members ms) :
    Steps (PutsMember R) earlier ms (members.reverse ++ earlier) := by
  induction h generalizing earlier with
  | nil => exact .nil
  | @cons member m members ms hm _ ih =>
    rw [List.reverse_cons, List.append_assoc]
    refine .cons ⟨member.2, hm.2, ?_⟩ ih
    rw [← hm.1]
    rfl

section

variable {inner : Option (Cursor → Except Error (Value × Cursor))} {c d : Cursor} {b : List Char}

theorem readWith_null (hb : Blanks b) (hp : c.Past (b ++ ['n', 'u', 'l', 'l']) d) :
    readWith inner c = .ok (.null, d) := by
  obtain ⟨hr, hw⟩ := Cursor.rest_skipBlank_of_past hp hb (by decide)
  simp only [readWith, hr, expectWord_eq_ok_iff.2 hw]
  rfl

theorem readWith_boolean {value : Bool} (hb : Blanks b) (ht : FlagText value t)
    (hp : c.Past (b ++ t) d) : readWith inner c = .ok (.boolean value, d) := by
  subst ht
  cases value with
  | false =>
    obtain ⟨hr, hw⟩ := Cursor.rest_skipBlank_of_past hp hb (by decide)
    simp only [readWith, hr, expectWord_eq_ok_iff.2 hw]
    rfl
  | true =>
    obtain ⟨hr, hw⟩ := Cursor.rest_skipBlank_of_past hp hb (by decide)
    simp only [readWith, hr, expectWord_eq_ok_iff.2 hw]
    rfl

theorem readWith_text {value : String} (hb : Blanks b) (ht : TextLiteral value t)
    (hp : c.Past (b ++ t) d) : readWith inner c = .ok (.text value, d) := by
  obtain ⟨e, he, hpt⟩ := Cursor.past_append_iff.1 hp
  have hskip := he.skipBlank_eq hb (ht.opens.stands hpt).1.solid
  obtain ⟨hhead, hread⟩ := past_textLiteral_iff.1 ⟨t, ht, hpt⟩
  obtain ⟨r, hr⟩ := List.head?_eq_some_iff.1 hhead
  simp only [readWith, hskip, hr, hread]
  rfl

theorem readWith_of_digit {x : Char} {r : List Char} (hr : c.skipBlank.rest = x :: r)
    (hx : '0' ≤ x ∧ x ≤ '9') : readWith inner c = (do
      let (n, c) ← readNumber false c.skipBlank
      .ok (.number n, c)) := by
  simp only [readWith, hr]
  split
  · next h => cases h
  -- the seven characters that other values begin with
  iterate 7 · next h => exact absurd ((List.cons.inj h).1 ▸ hx) (not_digit_of_lt (by decide))
  · next h =>
    cases h
    exact if_pos (Cursor.isDigit_iff.2 hx)

theorem readWith_number {value : Number} (hb : Blanks b) (ht : CountText value t)
    (hp : c.Past (b ++ t) d) (hd : d.Ends) : readWith inner c = .ok (.number value, d) := by
  obtain ⟨e, he, hpt⟩ := Cursor.past_append_iff.1 hp
  have hskip := he.skipBlank_eq hb (ht.opens.stands hpt).1.solid
  obtain ⟨n, hn, rfl, rfl⟩ := ht
  obtain ⟨x, r, hdigits, hx⟩ := (digits_toDigits n).head
  have hr : c.skipBlank.rest = x :: (r ++ d.rest) := by
    rw [hskip, hpt.rest, hdigits]
    rfl
  rw [readWith_of_digit hr hx, hskip, readNumber_of_past hn hpt hd]
  rfl

end

theorem read_of_no_parts (hlist : ∀ items, v ≠ .list items)
    (hobject : ∀ members, v ≠ .object members) {b : List Char} {c d : Cursor} (hb : Blanks b)
    (ht : DocumentText depth v t) (hp : c.Past (b ++ t) d) (hd : d.Ends) :
    read depth c = .ok (v, d) := by
  obtain ⟨inner, hinner⟩ : ∃ inner, read depth = readWith inner := by
    cases depth with
    | zero => exact ⟨none, rfl⟩
    | succ depth => exact ⟨some (read depth), rfl⟩
  rw [hinner]
  cases v with
  | null =>
    obtain rfl := documentText_null_iff.1 ht
    exact readWith_null hb hp
  | boolean => exact readWith_boolean hb (documentText_boolean_iff.1 ht) hp
  | number => exact readWith_number hb (documentText_number_iff.1 ht) hp hd
  | text => exact readWith_text hb (documentText_text_iff.1 ht) hp
  | list items => exact absurd rfl (hlist items)
  | object members => exact absurd rfl (hobject members)

theorem accepts_read (depth : Nat) : Accepts (read depth) (DocumentText depth) := by
  induction depth with
  | zero =>
    intro v b t c d hb ht hp hd
    cases v with
    | list | object => cases ht
    | _ => exact read_of_no_parts (by simp) (by simp) hb ht hp hd
  | succ depth ih =>
    intro v b t c d hb ht hp hd
    cases v with
    | list items =>
      obtain ⟨texts, hitems, r, rfl, hr⟩ := ht
      obtain ⟨hrest, hpr⟩ := Cursor.rest_skipBlank_of_past hp hb (by decide)
      simp only [read, readWith, hrest]
      rw [readItems_of_past ih (fun _ _ h => h.opens) hitems hr hpr
        (Nat.le_of_eq (congrArg List.length hpr.rest))]
      rfl
    | object members =>
      obtain ⟨ms, ⟨texts, hms, r, rfl, hr⟩, hmembers⟩ := ht
      obtain ⟨hrest, hpr⟩ := Cursor.rest_skipBlank_of_past hp hb (by decide)
      have hsteps : Steps (PutsMember _) [] ms (members.reverse ++ []) := steps_putsMember hmembers
      have hread := readMembers_of_past (acceptsMember_item ih) hms hr hpr hsteps
        (Nat.le_of_eq (congrArg List.length hpr.rest))
      simp only [bind, Except.bind] at hread
      simp only [read, readWith, hrest, bind, Except.bind, hread, List.append_nil,
        List.reverse_reverse]
    | _ => exact read_of_no_parts (by simp) (by simp) hb ht hp hd

/-! ## Writing -/

theorem prettyItems_eq (depth : Nat) (items : List Value) :
    prettyItems depth items =
      joined ((items.map (prettyAt depth)).map (newLine depth ++ ·)) := by
  match items with
  | [] => rw [prettyItems]; rfl
  | [v] => rw [prettyItems]; rfl
  | v :: w :: rest =>
    rw [prettyItems, prettyItems_eq depth (w :: rest)]
    · simp [joined]
    · simp

theorem prettyMembers_eq (depth : Nat) (members : List (String × Value)) :
    prettyMembers depth members =
      joined ((members.map fun m => literal m.1 ++ ':' :: ' ' :: m.2.prettyAt depth).map
        (newLine depth ++ ·)) := by
  match members with
  | [] => rw [prettyMembers]; rfl
  | [(key, value)] => rw [prettyMembers]; simp [joined]
  | (key, value) :: m :: rest =>
    rw [prettyMembers, prettyMembers_eq depth (m :: rest)]
    · simp [joined]
    · simp

theorem blanks_newLine (depth : Nat) : Blanks (newLine depth) := by
  intro x hx
  rcases List.mem_cons.1 hx with rfl | hx
  · decide
  · rw [List.eq_of_mem_replicate hx]
    decide

theorem isList_pretty (indent : Nat) (items : List Value) :
    IsList (items.map (prettyAt (indent + 1))) ((Value.list items).prettyAt indent) := by
  cases items with
  | nil => exact ⟨[']'], by rw [prettyAt], items_compact ']' []⟩
  | cons v rest =>
    have h := items_joined (blanks_newLine (indent + 1)) (blanks_newLine indent) ']'
      ((v :: rest).map (prettyAt (indent + 1)))
    rw [← prettyItems_eq] at h
    exact ⟨_, by rw [prettyAt] <;> simp, h⟩

theorem objectText_pretty (indent : Nat) (members : List (String × Value)) :
    ObjectText (members.map fun m => (m.1, m.2.prettyAt (indent + 1)))
      ((Value.object members).prettyAt indent) := by
  refine ⟨members.map fun m => literal m.1 ++ ':' :: ' ' :: m.2.prettyAt (indent + 1), ?_, ?_⟩
  · rw [List.forall₂_map_left_iff, List.forall₂_map_right_iff, List.forall₂_same]
    exact fun m _ => ⟨_, textLiteral_literal m.1, [], [' '], blanks_nil, by simp [Blanks], rfl⟩
  · cases members with
    | nil => exact ⟨['\x7d'], by rw [prettyAt], items_compact '\x7d' []⟩
    | cons m rest =>
      have h := items_joined (blanks_newLine (indent + 1)) (blanks_newLine indent) '\x7d'
        ((m :: rest).map fun m => literal m.1 ++ ':' :: ' ' :: m.2.prettyAt (indent + 1))
      rw [← prettyMembers_eq] at h
      exact ⟨_, by rw [prettyAt] <;> simp, h⟩

theorem documentText_of_no_parts (hlist : ∀ items, v ≠ .list items)
    (hobject : ∀ members, v ≠ .object members) (h : Plain depth v) (indent : Nat) :
    DocumentText depth v (v.prettyAt indent) := by
  cases v with
  | null =>
    rw [prettyAt]
    exact documentText_null_iff.2 rfl
  | boolean value =>
    rw [prettyAt]
    exact documentText_boolean_iff.2 (flag_law.writes value)
  | number value =>
    have hcount : IsCount value := by cases depth <;> exact h
    obtain ⟨n, hn, rfl⟩ := hcount
    rw [prettyAt]
    exact documentText_number_iff.2 ⟨n, hn, rfl, Nat.toList_repr⟩
  | text value =>
    rw [prettyAt]
    exact documentText_text_iff.2 (textLiteral_literal value)
  | list items => exact absurd rfl (hlist items)
  | object members => exact absurd rfl (hobject members)

theorem documentText_pretty (h : Plain depth v) (indent : Nat) :
    DocumentText depth v (v.prettyAt indent) := by
  induction depth generalizing v indent with
  | zero =>
    cases v with
    | list | object => cases h
    | _ => exact documentText_of_no_parts (by simp) (by simp) h indent
  | succ depth ih =>
    cases v with
    | list items =>
      refine ⟨items.map (prettyAt (indent + 1)), ?_, isList_pretty indent items⟩
      rw [List.forall₂_map_right_iff, List.forall₂_same]
      exact fun item hitem => ih (h item hitem) _
    | object members =>
      refine ⟨members.map fun m => (m.1, m.2.prettyAt (indent + 1)),
        objectText_pretty indent members, ?_⟩
      rw [List.forall₂_map_right_iff, List.forall₂_same]
      exact fun m hm => ⟨rfl, ih (h m hm) _⟩
    | _ => exact documentText_of_no_parts (by simp) (by simp) h indent

/-- A text of a document is read as this document, whatever blanks stand around it. -/
theorem parse_document {source : String} (h : Document (DocumentText depthLimit) v source) :
    parse source = .ok v := by
  have hread : Accepts codec.read (DocumentText depthLimit) := accepts_read depthLimit
  exact hread.parse_eq_ok h

theorem document_prettyText (h : Plain depthLimit v) {b : List Char} (hb : Blanks b) :
    Document (DocumentText depthLimit) v (v.prettyText ++ String.ofList b) :=
  ⟨[], v.prettyAt 0, b, blanks_nil, documentText_pretty h 0, hb, by simp [prettyText]⟩

/-- The pretty text of a document is read back. -/
theorem parse_prettyText (h : Plain depthLimit v) : parse v.prettyText = .ok v := by
  have hdocument := document_prettyText h blanks_nil
  rw [String.ofList_nil, String.append_empty] at hdocument
  exact parse_document hdocument

end Value
end Json
end GrammarModule
