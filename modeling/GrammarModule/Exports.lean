import GrammarModule.Handle
import GrammarModule.Json.Record

/-!
# GrammarModule.Exports

What a module publishes to a host: the name of the language and the handle of its grammar. Both
are always there, and the name is the same for every module, so the exports are their handle.
-/

namespace GrammarModule

structure Exports where
  handle : Handle
  deriving DecidableEq

namespace Exports

/-- The value of one export. -/
inductive Item where
  | text (value : String)
  | handle (value : Handle)
  deriving DecidableEq

/-- The exports as tools show them. -/
structure Summary where
  name : String
  language : String
  deriving DecidableEq, Repr

/-- The language that the module provides. -/
def language : String := "abl"

/-- The key of the name of the language. -/
def nameKey : String := "name"

/-- The key of the handle. -/
def handleKey : String := "language"

def name (_ : Exports) : String := language

/-- Both exports with their keys, in the order of publication. -/
def items (e : Exports) : List (String × Item) :=
  [(nameKey, .text e.name), (handleKey, .handle e.handle)]

def summary (e : Exports) : Summary := ⟨e.name, e.handle.text⟩

instance : Hashable Exports := ⟨fun e => mixHash (hash e.name) (hash e.handle.address)⟩

def Summary.format : Json.RecordFormat Summary where
  name := "RecordSummary"
  blank := ⟨"", ""⟩
  members := [
    .ofRequired "name" .text (·.name) fun s name => { s with name },
    .ofRequired "language" .text (·.language) fun s language => { s with language }]

end Exports
end GrammarModule
