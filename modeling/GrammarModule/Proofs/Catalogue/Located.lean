import GrammarModule.Catalogue.Format
import GrammarModule.Proofs.Json.Located.Codec

/-!
# GrammarModule.Proofs.Catalogue.Located

Metadata that is refused is refused at a place of its text, be it ill formed, cut short or of the
wrong shape, and the message ends with the line and the column of that place
(`refused_inside_text`).
-/

namespace GrammarModule

open Json

theorem KindRef.locates : Locates KindRef.format.codec.read := by
  refine RecordFormat.locates ?_
  simp only [format, List.forall_mem_cons]
  exact ⟨Member.ofRequired_locates locates_text, Member.ofRequired_locates locates_flag, by simp⟩

theorem locates_kindRefs : Locates (Codec.list KindRef.format.codec).read :=
  locates_list KindRef.locates

theorem ChildRule.locates : Locates ChildRule.format.codec.read := by
  refine RecordFormat.locates ?_
  simp only [format, List.forall_mem_cons]
  exact ⟨Member.ofRequired_locates locates_flag, Member.ofRequired_locates locates_flag,
    Member.ofRequired_locates locates_kindRefs, by simp⟩

theorem KindEntry.locates : Locates KindEntry.format.codec.read := by
  refine RecordFormat.locates ?_
  simp only [format, List.forall_mem_cons]
  exact ⟨Member.ofRequired_locates locates_text, Member.ofRequired_locates locates_flag,
    Member.ofOptional_locates (locates_table ChildRule.locates),
    Member.ofOptional_locates (locates_optional ChildRule.locates),
    Member.ofOptional_locates (locates_optional locates_kindRefs), by simp⟩

namespace Catalogue

theorem locates : Locates codec.read := fun c =>
  (locates_list KindEntry.locates c).map fun _ => rfl

theorem parse_eq_error_iff {source : String} {f : Failure} :
    parse source = .error f ↔ ∃ e, codec.parse source = .error e ∧ f = .malformedMetadata e := by
  rw [parse]
  cases codec.parse source <;> simp [Except.mapError, eq_comm]

/-- Whatever is wrong with a text, it is refused as malformed metadata, and the message ends with
one of its lines and a column that the bytes of that line reach. -/
theorem refused_inside_text {source : String} {f : Failure} (h : parse source = .error f) :
    ∃ e, f = .malformedMetadata e ∧ e.cause.category.name ∈ ["syntax", "data", "eof"] ∧
      e.position.Inside source.toList ∧
      f.message = "invalid node type metadata: " ++ e.cause.describe ++ " at line " ++
        toString e.position.line ++ " column " ++ toString e.position.column := by
  obtain ⟨e, he, rfl⟩ := parse_eq_error_iff.1 h
  have hcovered : (Cursor.ofText source).Covers e.position :=
    Codec.parse_located locates source e he
  refine ⟨e, rfl, ?_, hcovered.inside, ?_⟩
  · cases e.cause.category <;> decide
  · change "invalid node type metadata: " ++ e.message = _
    simp only [Error.message, String.append_assoc]

/-- A member that is missing shows where its object ends: on the third line, behind a character of
two bytes. -/
theorem refused_inside_text_missing_member :
    let source := "[\x7b\"type\":\n\n\"é\"\x7d]"
    let e : Json.Error := ⟨.missingMember "named", ⟨3, 5⟩⟩
    parse source = .error (.malformedMetadata e) ∧ e.position.Inside source.toList := by
  intro source e
  have hparse : parse source = .error (.malformedMetadata e) := by decide +kernel
  obtain ⟨_, he, -, hinside, -⟩ := refused_inside_text hparse
  cases he
  exact ⟨hparse, hinside⟩

/-- A line break inside a string is refused on the line that it begins. -/
example : parse "[\x7b\"a\n" = .error (.malformedMetadata ⟨.controlCharacter, ⟨2, 0⟩⟩) := by
  decide +kernel

end Catalogue

end GrammarModule
