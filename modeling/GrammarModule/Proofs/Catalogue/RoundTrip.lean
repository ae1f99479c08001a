import GrammarModule.Exports
import GrammarModule.Proofs.Catalogue.Rendering

/-!
# GrammarModule.Proofs.Catalogue.RoundTrip

What is written is read back: catalogues and each record in them, and the summary of exports.
`parse_render_eq_self` says so of all five formats at once.
-/

namespace GrammarModule

open Json

/-! ## The summary of exports -/

namespace Exports

def Summary.fields : List (Json.Field Summary) := [
  ⟨"name", true, String, (·.name), fun s name => { s with name }, TextLiteral⟩,
  ⟨"language", true, String, (·.language), fun s language => { s with language }, TextLiteral⟩]

theorem Summary.format_fits : Summary.format.Fits Summary.fields where
  independent := {
    keys := by decide
    get_set := by simp [fields]
    get_set_ne := by simp [fields]
    ext := by
      intro r s h
      cases r; cases s
      simpa [fields] using h }
  fills := .cons (ofRequired_fills text_law ..) (.cons (ofRequired_fills text_law ..) .nil)
  requiredFirst := by simp [fields]

theorem Summary.law : Summary.format.codec.Law (RecordText Summary.fields Summary.format.blank) :=
  format_fits.law

end Exports

/-! ## Round trips -/

/-- Every value is read back from its text, and only equal values have the same text. -/
def Json.Codec.RoundTrips {α : Type} (codec : Codec α) : Prop :=
  (∀ v, codec.parse (codec.render v) = .ok v) ∧ ∀ v w, codec.render v = codec.render w ↔ v = w

theorem Json.Codec.Law.roundTrips {α : Type} {codec : Codec α} {R : α → List Char → Prop}
    (h : codec.Law R) : codec.RoundTrips :=
  ⟨h.parse_render, fun _ _ => h.render_inj⟩

namespace Catalogue

theorem parse_render (c : Catalogue) : parse c.render = .ok c :=
  parse_eq_ok_iff.2 (law.document_render c)

/-- Decoding undoes encoding for catalogues and for each kind of record, so that a text which is
accepted keeps its meaning when it is written anew. -/
theorem parse_render_eq_self :
    (∀ c : Catalogue, parse c.render = .ok c) ∧
    (∀ c d : Catalogue, c.render = d.render ↔ c = d) ∧
    (∀ (source : String) (c : Catalogue), parse source = .ok c →
      ∃ d, parse c.render = .ok d ∧ d.entries = c.entries ∧ d.named = c.named ∧
        d.supertypes = c.supertypes ∧ ∀ kind, d.find? kind = c.find? kind) ∧
    KindEntry.format.codec.RoundTrips ∧ ChildRule.format.codec.RoundTrips ∧
    KindRef.format.codec.RoundTrips ∧ Exports.Summary.format.codec.RoundTrips := by
  refine ⟨parse_render, ?_, ?_, KindEntry.law.roundTrips, ChildRule.law.roundTrips,
    KindRef.law.roundTrips, Exports.Summary.law.roundTrips⟩
  · intro c d
    exact law.render_inj
  · intro source c _
    exact ⟨c, parse_render c, rfl, rfl, rfl, fun _ => rfl⟩

end Catalogue

end GrammarModule
