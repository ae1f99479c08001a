import GrammarModule.Catalogue.Format
import GrammarModule.Proofs.Json.Record

/-!
# GrammarModule.Proofs.Catalogue.Rendering

What a metadata text may look like. The fields of each record are listed here with the texts of
their values, in the words of the grammar alone; a rendering of a catalogue is a document that
lists renderings of its entries. `parse_iff_rendering`: parsing accepts exactly the
renderings, each as the catalogue that it renders.
-/

namespace GrammarModule

open Json

/-! ## The notation of each record -/

def KindRef.fields : List (Json.Field KindRef) := [
  ⟨"type", true, String, (·.kind), fun r kind => { r with kind }, TextLiteral⟩,
  ⟨"named", true, Bool, (·.named), fun r named => { r with named }, FlagText⟩]

def KindRef.Text : KindRef → List Char → Prop := RecordText fields default

def ChildRule.fields : List (Json.Field ChildRule) := [
  ⟨"multiple", true, Bool, (·.multiple), fun r multiple => { r with multiple }, FlagText⟩,
  ⟨"required", true, Bool, (·.required), fun r required => { r with required }, FlagText⟩,
  ⟨"types", true, List KindRef, (·.types), fun r types => { r with types },
    ListText KindRef.Text⟩]

def ChildRule.Text : ChildRule → List Char → Prop := RecordText fields default

/-- The last three may be left out: the entry then has no fields, no children, no subtypes. -/
def KindEntry.fieldList : List (Json.Field KindEntry) := [
  ⟨"type", true, String, (·.kind), fun e kind => { e with kind }, TextLiteral⟩,
  ⟨"named", true, Bool, (·.named), fun e named => { e with named }, FlagText⟩,
  ⟨"fields", false, Table ChildRule, (·.fields), fun e fields => { e with fields },
    TableText ChildRule.Text⟩,
  ⟨"children", false, Option ChildRule, (·.children), fun e children => { e with children },
    OptionalText ChildRule.Text⟩,
  ⟨"subtypes", false, Option (List KindRef), (·.subtypes), fun e subtypes => { e with subtypes },
    OptionalText (ListText KindRef.Text)⟩]

def KindEntry.Text : KindEntry → List Char → Prop := RecordText fieldList default

/-- A text that renders a catalogue: one list of its entries in order, with any blanks around. -/
def Catalogue.Rendering (c : Catalogue) (source : String) : Prop :=
  Document (ListText KindEntry.Text) c.entries source

/-! ## The formats keep to it -/

theorem RecordText.not_null {ρ : Type} {fields : List (Json.Field ρ)} {blank r : ρ} {t : List Char}
    (h : RecordText fields blank r t) : t.head? ≠ some 'n' := by
  rcases h with ⟨ms, ⟨texts, -, r, rfl, -⟩, -⟩ | ⟨ts, ⟨r, rfl, -⟩, -⟩ <;> simp

theorem ListText.not_null {α : Type} {R : α → List Char → Prop} {values : List α}
    {t : List Char} (h : ListText R values t) : t.head? ≠ some 'n' := by
  obtain ⟨texts, -, r, rfl, -⟩ := h
  simp

theorem KindRef.format_fits : KindRef.format.Fits KindRef.fields where
  independent := {
    keys := by decide
    get_set := by simp [fields]
    get_set_ne := by simp [fields]
    ext := by
      intro r s h
      cases r; cases s
      simpa [fields] using h }
  fills := .cons (ofRequired_fills text_law ..) (.cons (ofRequired_fills flag_law ..) .nil)
  requiredFirst := by simp [fields]

theorem KindRef.law : KindRef.format.codec.Law KindRef.Text := format_fits.law

theorem ChildRule.format_fits : ChildRule.format.Fits ChildRule.fields where
  independent := {
    keys := by decide
    get_set := by simp [fields]
    get_set_ne := by simp [fields]
    ext := by
      intro r s h
      cases r; cases s
      simpa [fields] using h }
  fills := .cons (ofRequired_fills flag_law ..) (.cons (ofRequired_fills flag_law ..)
    (.cons (ofRequired_fills (list_law KindRef.law) ..) .nil))
  requiredFirst := by simp [fields]

theorem ChildRule.law : ChildRule.format.codec.Law ChildRule.Text := format_fits.law

theorem eq_empty_of_isEmpty {α : Type} {t : Table α} (h : t.isEmpty = true) : t = ∅ :=
  Table.ext (List.isEmpty_iff.1 h)

/-- The three optional fields are left out only where they are what a fresh entry has. -/
theorem KindEntry.format_fits : KindEntry.format.Fits KindEntry.fieldList where
  independent := {
    keys := by decide
    get_set := by simp [fieldList]
    get_set_ne := by simp [fieldList]
    ext := by
      intro r s h
      cases r; cases s
      simpa [fieldList] using h }
  fills := by
    have hchildren := optional_law ChildRule.law fun _ _ h => RecordText.not_null h
    have hsubtypes := optional_law (list_law KindRef.law) fun _ _ h => ListText.not_null h
    refine .cons (ofRequired_fills text_law ..) (.cons (ofRequired_fills flag_law ..) ?_)
    refine .cons (ofOptional_fills (table_law ChildRule.law) _ _ _ _ _ ?_) ?_
    · exact fun _ h => eq_empty_of_isEmpty h
    refine .cons (ofOptional_fills hchildren _ _ _ _ _ ?_) ?_
    · exact fun _ h => Option.isNone_iff_eq_none.1 h
    refine .cons (ofOptional_fills hsubtypes _ _ _ _ _ ?_) .nil
    exact fun _ h => Option.isNone_iff_eq_none.1 h
  requiredFirst := by simp [fieldList]

theorem KindEntry.law : KindEntry.format.codec.Law KindEntry.Text := format_fits.law

/-! ## Whole catalogues -/

namespace Catalogue

/-- The texts of a catalogue are those of the list of its entries. -/
theorem law : codec.Law fun c => ListText KindEntry.Text c.entries where
  reads := by
    intro c start stop
    rw [← (list_law KindEntry.law).reads c.entries start stop]
    constructor
    · intro h
      obtain ⟨⟨entries, d⟩, hread, h⟩ := bind_eq_ok_iff.1 h
      cases h
      exact hread
    · intro h
      exact bind_eq_ok_iff.2 ⟨_, h, rfl⟩
  opens _ _ h := (list_law KindEntry.law).opens _ _ h
  writes c := (list_law KindEntry.law).writes c.entries

theorem parse_eq_ok_iff {source : String} {c : Catalogue} :
    parse source = .ok c ↔ c.Rendering source := by
  have hiff : codec.parse source = .ok c ↔ c.Rendering source := law.parse_eq_ok_iff
  rw [← hiff, parse]
  cases codec.parse source <;> simp [Except.mapError]

/-- Parsing either gives the catalogue that the text renders, or refuses the text as metadata. -/
theorem parse_eq_malformed_iff {source : String} :
    (∃ e, parse source = .error (.malformedMetadata e)) ↔
      ∀ c : Catalogue, ¬ c.Rendering source := by
  simp only [← parse_eq_ok_iff, parse]
  cases codec.parse source <;> simp [Except.mapError]

/-- Parsing accepts exactly the renderings of catalogues, each as the one catalogue that it
renders, and refuses every other text as malformed metadata. -/
theorem parse_iff_rendering (source : String) :
    (∀ c : Catalogue, parse source = .ok c ↔ c.Rendering source) ∧
    (∀ c d : Catalogue, c.Rendering source → d.Rendering source → c = d) ∧
    ((∃ e, parse source = .error (.malformedMetadata e)) ↔
      ∀ c : Catalogue, ¬ c.Rendering source) := by
  refine ⟨fun c => parse_eq_ok_iff, ?_, parse_eq_malformed_iff⟩
  intro c d hc hd
  exact law.document_unique hc hd

end Catalogue

end GrammarModule
