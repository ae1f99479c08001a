import GrammarModule.Catalogue.Basic
import GrammarModule.Failure
import GrammarModule.Json.Record

/-!
# GrammarModule.Catalogue.Format

The written form of a catalogue: a list of records, one for each kind. Fields, children and
subtypes are left out where there are none, and an empty list of subtypes is not none.
-/

namespace GrammarModule

open Json

def KindRef.format : RecordFormat KindRef where
  name := "NodeTypeRef"
  blank := default
  members := [
    .ofRequired "type" .text (·.kind) fun r kind => { r with kind },
    .ofRequired "named" .flag (·.named) fun r named => { r with named }]

def ChildRule.format : RecordFormat ChildRule where
  name := "ChildInfo"
  blank := default
  members := [
    .ofRequired "multiple" .flag (·.multiple) fun r multiple => { r with multiple },
    .ofRequired "required" .flag (·.required) fun r required => { r with required },
    .ofRequired "types" (.list KindRef.format.codec) (·.types) fun r types => { r with types }]

def KindEntry.format : RecordFormat KindEntry where
  name := "NodeTypeInfo"
  blank := default
  members := [
    .ofRequired "type" .text (·.kind) fun e kind => { e with kind },
    .ofRequired "named" .flag (·.named) fun e named => { e with named },
    .ofOptional "fields" (.table ChildRule.format.codec) Table.isEmpty (·.fields)
      fun e fields => { e with fields },
    .ofOptional "children" (.optional ChildRule.format.codec) Option.isNone (·.children)
      fun e children => { e with children },
    .ofOptional "subtypes" (.optional (.list KindRef.format.codec)) Option.isNone (·.subtypes)
      fun e subtypes => { e with subtypes }]

namespace Catalogue

def codec : Codec Catalogue where
  read c := do
    let (entries, c) ← (Codec.list KindEntry.format.codec).read c
    .ok (⟨entries⟩, c)
  write c := (Codec.list KindEntry.format.codec).write c.entries

/-- The catalogue that a text denotes. -/
def parse (source : String) : Except Failure Catalogue :=
  (codec.parse source).mapError .malformedMetadata

/-- The compact text of a catalogue. -/
def render (c : Catalogue) : String := codec.render c

end Catalogue

end GrammarModule
