import GrammarModule.Json.Record
import GrammarModule.Proofs.Json.Located.Skip
import GrammarModule.Proofs.Text.Utf8

/-!
# GrammarModule.Proofs.Json.Located.Codec

Codecs whose readers track the text (`Locates`). Lists, tables, optional values and records track
it when their parts do, also where a part is refused for its shape, for its absence or for coming
twice, long after the place where it stands. So a text that such a codec refuses is refused at a
position of that text (`parse_located`), which is on one of its lines, at a column that the line
has (`Position.Inside`).
-/

namespace GrammarModule
namespace Json

variable {α σ ρ : Type}

/-- Wherever it reads from, it tracks the text. -/
def Locates (read : Cursor → Except Error (α × Cursor)) : Prop := ∀ c, Tracks Prod.snd c (read c)

/-- Only refuses, and does it further on. -/
theorem refuseValue_tracks {place : α → Cursor} (expected : Expected) (c : Cursor) :
    Tracks place c (refuseValue expected c) := by
  have hafter : ∀ {β : Type} {at' : β → Cursor} {found : β → Found} {d : Cursor}
      {run : Except Error β}, c.Reaches d → Tracks at' d run →
      Tracks place c (run >>= fun b => (at' b).failHere (.unexpected (found b) expected)) :=
    fun hd hrun => .after hd (hrun.bind fun _ => .failHere _ _)
  rw [refuseValue]
  split
  · exact .failNext c _
  · exact hafter c.reaches_advance (expectWord_tracks _ _)
  · exact hafter c.reaches_advance (expectWord_tracks _ _)
  · exact hafter c.reaches_advance (expectWord_tracks _ _)
  · exact hafter c.reaches_advance (readText_tracks _)
  · exact hafter c.reaches_advance (readNumber_tracks _ _)
  · exact .failHere c _
  · exact .failHere c _
  · split
    · exact hafter (.refl c) (readNumber_tracks _ c)
    · exact .failNext c _

/-! ## Values without parts -/

theorem locates_flag : Locates readFlag := by
  intro c
  refine .after c.reaches_skipBlank ?_
  rw [readFlag]
  generalize c.skipBlank = d
  split
  · exact .after d.reaches_advance ((expectWord_tracks _ _).map fun _ => rfl)
  · exact .after d.reaches_advance ((expectWord_tracks _ _).map fun _ => rfl)
  · exact refuseValue_tracks _ d

theorem locates_text : Locates readString := by
  intro c
  refine .after c.reaches_skipBlank ?_
  rw [readString]
  generalize c.skipBlank = d
  split
  · exact .after d.reaches_advance (readText_tracks _)
  · exact refuseValue_tracks _ d

/-! ## Values with parts -/

theorem readItems_tracks {item : Cursor → Except Error (α × Cursor)} (hitem : Locates item)
    (bound : List Char) (first : Bool) (c : Cursor) :
    Tracks Prod.snd c (readItems item bound first c) := by
  induction bound generalizing first c with
  | nil => exact .failNext c _
  | cons x bound ih =>
    rw [readItems]
    refine (nextItem_tracks first c).bind fun ⟨more, d⟩ => ?_
    dsimp only
    split
    · exact (hitem d).bind fun value => (ih false value.2).map fun _ => rfl
    · exact .of_ok (.refl _)

theorem readMembers_tracks {member : σ → String → Cursor → Except Error (σ × Cursor)}
    (hmember : ∀ state key, Locates (member state key)) (bound : List Char) (first : Bool)
    (state : σ) (c : Cursor) : Tracks Prod.snd c (readMembers member bound first state c) := by
  induction bound generalizing first state c with
  | nil => exact .failNext c _
  | cons x bound ih =>
    rw [readMembers]
    refine (nextKey_tracks first c).bind fun ⟨key?, d⟩ => ?_
    cases key? with
    | none => exact .of_ok (.refl _)
    | some key => exact (hmember state key d).bind fun r => ih false r.1 r.2

theorem locates_list {item : Cursor → Except Error (α × Cursor)} (hitem : Locates item) :
    Locates (readList item) := by
  intro c
  refine .after c.reaches_skipBlank ?_
  rw [readList]
  generalize c.skipBlank = d
  split
  · exact .after d.reaches_advance (readItems_tracks hitem _ _ _)
  · exact refuseValue_tracks _ d

theorem locates_table {item : Cursor → Except Error (α × Cursor)} (hitem : Locates item) :
    Locates (readTable item) := by
  intro c
  refine .after c.reaches_skipBlank ?_
  rw [readTable]
  generalize c.skipBlank = d
  simp only
  split
  · refine .after d.reaches_advance (readMembers_tracks (fun table key c => ?_) _ _ _ _)
    exact (expectColon_tracks c).bind fun e => (hitem e).map fun _ => rfl
  · exact refuseValue_tracks _ d

theorem locates_optional {item : Cursor → Except Error (α × Cursor)} (hitem : Locates item) :
    Locates (readOptional item) := by
  intro c
  refine .after c.reaches_skipBlank ?_
  rw [readOptional]
  generalize c.skipBlank = d
  split
  · exact .after d.reaches_advance ((expectWord_tracks _ _).map fun _ => rfl)
  · exact (hitem d).map fun _ => rfl

/-! ## Records -/

/-- Whatever the record so far, reading the member tracks the text. -/
def Member.Locates (member : Member ρ) : Prop := ∀ r, Json.Locates (member.read r)

theorem Member.ofRequired_locates {key : String} {codec : Codec α} {get : ρ → α}
    {set : ρ → α → ρ} (h : Json.Locates codec.read) : (ofRequired key codec get set).Locates :=
  fun _ c => (h c).map fun _ => rfl

theorem Member.ofOptional_locates {key : String} {codec : Codec α} {omitted : α → Bool}
    {get : ρ → α} {set : ρ → α → ρ} (h : Json.Locates codec.read) :
    (ofOptional key codec omitted get set).Locates :=
  fun _ c => (h c).map fun _ => rfl

namespace RecordFormat

variable {format : RecordFormat ρ}

/-- A member that comes twice is refused where the object stands closed. -/
theorem readMember_tracks (h : ∀ m ∈ format.members, m.Locates) (state : ρ × List String)
    (key : String) : Locates (format.readMember state key) := by
  intro c
  rw [readMember]
  split
  · exact (expectColon_tracks c).bind fun d => (skipValue_tracks d).map fun _ => rfl
  · next member hmember =>
    split
    · exact .of_error (covers_closedObjectPosition c)
    · have hread : member.Locates := h member (List.mem_of_find?_eq_some hmember)
      exact (expectColon_tracks c).bind fun d => (hread state.1 d).map fun _ => rfl

/-- A member that is missing is refused after the closing brace. -/
theorem readObject_tracks (h : ∀ m ∈ format.members, m.Locates) (c : Cursor) :
    Tracks Prod.snd c (format.readObject c) := by
  rw [readObject]
  refine (readMembers_tracks (readMember_tracks h) _ _ _ c).bind fun ⟨⟨r, keys⟩, d⟩ => ?_
  dsimp only
  split
  · exact .failHere _ _
  · exact .of_ok (.refl _)

theorem readPositional_tracks {members : List (Member ρ)} (h : ∀ m ∈ members, m.Locates)
    (index : Nat) (record : ρ) (c : Cursor) :
    Tracks Prod.snd c (format.readPositional index record c members) := by
  induction members generalizing index record c with
  | nil => exact (closeList_tracks c).map fun _ => rfl
  | cons member rest ih =>
    obtain ⟨hmember, hrest⟩ := List.forall_mem_cons.1 h
    rw [readPositional]
    refine (nextItem_tracks _ c).bind fun ⟨more, d⟩ => ?_
    dsimp only
    split
    · exact (hmember record d).bind fun r => ih hrest (index + 1) r.1 r.2
    · split
      · exact .failHere _ _
      · exact .of_ok (.refl _)

theorem locates (h : ∀ m ∈ format.members, m.Locates) : Locates format.codec.read := by
  intro c
  refine .after c.reaches_skipBlank ?_
  change Tracks Prod.snd _ (format.read c)
  rw [RecordFormat.read]
  generalize c.skipBlank = d
  split
  · exact .after d.reaches_advance (readPositional_tracks h _ _ _)
  · exact .after d.reaches_advance (readObject_tracks h _)
  · exact refuseValue_tracks _ d

end RecordFormat

/-! ## Lines -/

/-- The lines of a text, without the characters that end them; the last one may be empty. -/
def lines (text : List Char) : List (List Char) := text.splitOn '\n'

theorem lines_cons (x : Char) (text : List Char) :
    lines (x :: text) =
      if x = '\n' then [] :: lines text else (lines text).modifyHead (List.cons x) := by
  simp [lines, List.splitOn_cons_eq_if_modifyHead]

theorem lines_ne_nil (text : List Char) : lines text ≠ [] := List.splitOn_ne_nil _ _

theorem length_lines (text : List Char) : (lines text).length = text.count '\n' + 1 := by
  induction text with
  | nil => rfl
  | cons x text ih =>
    rw [lines_cons, List.count_cons]
    split
    · next h => simp [h, ih]
    · next h => simp [h, ih]

/-- A position of a text: one of its lines, and no more bytes than that line has. -/
structure Position.Inside (text : List Char) (p : Position) : Prop where
  first : 1 ≤ p.line
  last : p.line ≤ text.count '\n' + 1
  column : ∃ line, (lines text)[p.line - 1]? = some line ∧ p.column ≤ (Text.encode line).length

theorem length_encode_cons (x : Char) (text : List Char) :
    (Text.encode (x :: text)).length = x.utf8Size + (Text.encode text).length := by
  rw [Text.encode_cons, List.length_append, String.length_utf8EncodeChar]

/-- On the line where the bytes were counted from, the column starts at that of the position. -/
theorem Position.exists_line_afterBytes (p : Position) (n : Nat) (text : List Char) :
    ∃ k line, (lines text)[k]? = some line ∧ (p.afterBytes n text).line = p.line + k ∧
      (p.afterBytes n text).column ≤
        (if k = 0 then p.column else 0) + (Text.encode line).length := by
  induction text generalizing p n with
  | nil => exact ⟨0, [], rfl, rfl, Nat.le_add_right _ _⟩
  | cons x text ih =>
    by_cases hn : n = 0
    · obtain ⟨line, more, hlines⟩ := List.exists_cons_of_ne_nil (lines_ne_nil (x :: text))
      rw [hn, afterBytes_zero]
      exact ⟨0, line, by rw [hlines]; rfl, rfl, Nat.le_add_right _ _⟩
    obtain ⟨k, line, hline, hk, hcolumn⟩ := ih (p.after x) (n - x.utf8Size)
    rw [afterBytes, if_neg hn, lines_cons]
    by_cases hx : x = '\n'
    · have hsize : x.utf8Size = 1 := by rw [hx]; rfl
      rw [after, if_pos hx] at hk hcolumn
      rw [if_neg (by omega : ¬n < x.utf8Size), if_pos hx, after, if_pos hx]
      refine ⟨k + 1, line, hline, by rw [hk, Nat.add_right_comm, Nat.add_assoc], ?_⟩
      simpa using hcolumn
    · obtain ⟨first, more, hlines⟩ := List.exists_cons_of_ne_nil (lines_ne_nil text)
      have hlength := length_encode_cons x first
      rw [hlines] at hline
      rw [after, if_neg hx] at hk hcolumn
      rw [if_neg hx, hlines, List.modifyHead_cons, after, if_neg hx]
      split
      · -- inside a character of several bytes
        refine ⟨0, x :: first, rfl, rfl, ?_⟩
        rw [if_pos rfl, hlength, ← Nat.add_assoc]
        dsimp only
        omega
      · cases k with
        | zero =>
          cases hline
          refine ⟨0, x :: line, rfl, hk, ?_⟩
          rw [if_pos rfl] at hcolumn ⊢
          rwa [hlength, ← Nat.add_assoc]
        | succ k => exact ⟨k + 1, line, hline, hk, hcolumn⟩

theorem Cursor.Covers.inside {source : String} {p : Position}
    (h : (Cursor.ofText source).Covers p) : p.Inside source.toList := by
  obtain ⟨n, rfl⟩ := h
  obtain ⟨k, line, hline, hk, hcolumn⟩ :=
    Position.start.exists_line_afterBytes n source.toList
  have hlt : k < source.toList.count '\n' + 1 := by
    rw [← length_lines]
    exact (List.getElem?_eq_some_iff.1 hline).1
  rw [show Position.start.line = 1 from rfl] at hk
  rw [show Position.start.column = 0 from rfl, ite_self, Nat.zero_add] at hcolumn
  refine ⟨by rw [Cursor.ofText, hk]; omega, by rw [Cursor.ofText, hk]; omega, line, ?_, hcolumn⟩
  rw [Cursor.ofText, hk, Nat.add_sub_cancel_left]
  exact hline

/-! ## Whole texts -/

theorem Codec.parse_located {codec : Codec α} (h : Locates codec.read) (source : String) :
    Located (Cursor.ofText source) (codec.parse source) := by
  rw [parse]
  refine (h _).located_bind fun r => ?_
  have hend : Tracks (fun _ => r.2) r.2 (expectEnd r.2) := ⟨fun _ _ => .refl _, expectEnd_located _⟩
  exact hend.located_bind fun _ => .of_ok _ _

end Json
end GrammarModule
