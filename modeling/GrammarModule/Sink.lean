import GrammarModule.Exports
import GrammarModule.Failure

/-!
# GrammarModule.Sink

Publication onto an object of the host, in two phases: a host value is created for every export
before the first is attached. A refusal names the export that the host refused.
-/

namespace GrammarModule

/-- An object of the host that exports can be attached to; `β` are the values of the host, and a
refusal is its text. -/
structure Sink (m : Type → Type) (β : Type) where
  createText : String → m (Except String β)
  createReference : Handle → m (Except String β)
  attach : String → β → m (Except String Unit)

namespace Sink

variable {m : Type → Type} [Monad m] {β : Type}

/-- A step of the publication of one export, a refusal being blamed on that export. -/
def blaming {α : Type} (key : String) (step : m (Except String α)) : ExceptT Failure m α :=
  ExceptT.mk do return (← step).mapError (Failure.exportRejected key)

/-- The host's value for one export. -/
def create (sink : Sink m β) : Exports.Item → m (Except String β)
  | .text value => sink.createText value
  | .handle value => sink.createReference value

/-- Creates the values of all exports, and then attaches them in the order of publication. -/
def publish (sink : Sink m β) (exports : Exports) : m (Except Failure Unit) := ExceptT.run do
  let created ← exports.items.mapM fun (key, item) => do
    return (key, ← blaming key (sink.create item))
  created.forM fun (key, value) => blaming key (sink.attach key value)

end Sink
end GrammarModule
