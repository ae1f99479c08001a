import GrammarModule.Exports
import GrammarModule.Failure

/-!
# GrammarModule.Loading

Loading the module into a host. A source gives the handle of the grammar, a host takes the
exports; both are known by their operations alone, which may have any effects. The host is checked
before the source is asked, and the exports are published last, so the first obstacle on that way
is the one reported and nothing after it happens.
-/

namespace GrammarModule

/-- Where the handle of the grammar comes from; `symbol` names it in messages. -/
structure Source (m : Type → Type) where
  symbol : String
  resolve : m (Except Failure Handle)

/-- What a runtime offers to the module that it loads. -/
structure Host (m : Type → Type) where
  /-- Whether the host can take exports at all. -/
  usable : m Bool
  /-- What messages call the host. -/
  description : m String
  publish : Exports → m (Except Failure Unit)

namespace Source

variable {m : Type → Type} [Monad m]

/-- A source that is lent: every question goes to the lender. -/
def borrowed (source : Source m) : Source m where
  symbol := source.symbol
  resolve := source.resolve

/-- The refusal when there is no host. -/
def hostMissing : Failure := .invalidHost "no environment supplied"

/-- The refusal of a host that cannot take exports. -/
def hostUnusable (description : String) : Failure :=
  .invalidHost (description ++ " cannot accept exports")

/-- Builds the exports for one host, without publishing them. -/
def load (source : Source m) (host : Option (Host m)) : m (Except Failure Exports) :=
  match host with
  | none => pure (.error hostMissing)
  | some host => do
    if ← host.usable then
      return (← source.resolve).map Exports.mk
    else
      return .error (hostUnusable (← host.description))

/-- Builds the exports and publishes them to the host. -/
def register (source : Source m) (host : Option (Host m)) : m (Except Failure Exports) :=
  match host with
  | none => pure (.error hostMissing)
  | some host => do
    match ← source.load (some host) with
    | .error failure => return .error failure
    | .ok exports => return (← host.publish exports).map fun _ => exports

end Source
end GrammarModule
