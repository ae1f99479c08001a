import GrammarModule.Exports
import GrammarModule.Failure

/-!
# GrammarModule.Slot

The place where a host keeps the exports of the module. It is filled once and never emptied.
-/

namespace GrammarModule

inductive Slot where
  | empty
  | filled (exports : Exports)
  deriving DecidableEq

namespace Slot

instance : Inhabited Slot := ⟨.empty⟩

/-- The slot with the exports in it; a slot that is taken refuses them. -/
def fill (exports : Exports) : Slot → Except Failure Slot
  | .empty => .ok (.filled exports)
  | .filled existing => .error (.alreadyRegistered existing.name)

def exports? : Slot → Option Exports
  | .empty => none
  | .filled exports => some exports

def isFilled (s : Slot) : Bool := s.exports?.isSome

end Slot
end GrammarModule
