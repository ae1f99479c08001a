import GrammarModule.Loading
import GrammarModule.Sink
import GrammarModule.Slot

/-!
# GrammarModule.Session.Hosts

Hosts that live in memory: one that keeps the exports in a slot, and one that takes them on an
object, notes every call, and can be told to refuse one.
-/

namespace GrammarModule

/-- A host with a single slot for the module. -/
structure SlotHost where
  label : String
  usable : Bool
  slot : Slot
  deriving DecidableEq

namespace SlotHost

def new (label : String) : SlotHost := ⟨label, true, .empty⟩

/-- A host that cannot take exports, as one that has been torn down. -/
def unusable (label : String) : SlotHost := { new label with usable := false }

def description (h : SlotHost) : String := "memory host `" ++ h.label ++ "`"

/-- Fills the slot, whether or not the host is usable. -/
def publish (exports : Exports) : StateM SlotHost (Except Failure Unit) := fun h =>
  match h.slot.fill exports with
  | .ok slot => (.ok (), { h with slot })
  | .error failure => (.error failure, h)

/-- The host as the loader sees it. -/
def host : Host (StateM SlotHost) where
  usable := return (← get).usable
  description := return (← get).description
  publish

end SlotHost

/-- What can be asked of an object that takes exports. -/
inductive SinkOperation where
  | createText
  | createReference
  | attach
  deriving DecidableEq, Repr

/-- A call to such an object, and its argument as a text: the text itself, the handle, or the key
that a value is attached under. -/
structure SinkCall where
  operation : SinkOperation
  argument : String
  deriving DecidableEq, Repr

/-- Which calls are refused, with any argument or with one, and the text of the refusal. -/
structure Refusal where
  operation : SinkOperation
  argument : Option String
  reason : String
  deriving DecidableEq, Repr

def Refusal.covers (r : Refusal) (call : SinkCall) : Bool :=
  r.operation = call.operation ∧ (r.argument = none ∨ r.argument = some call.argument)

/-- A host that attaches exports to an object; `calls` and `attached` list the oldest first. -/
structure SinkHost where
  label : String
  usable : Bool
  refusal : Option Refusal
  calls : List SinkCall
  attached : List (String × String)
  deriving DecidableEq

namespace SinkHost

def new (label : String) (usable : Bool) (refusal : Option Refusal) : SinkHost :=
  ⟨label, usable, refusal, [], []⟩

/-- The reason why a call is refused, if it is. -/
def reason? (h : SinkHost) (call : SinkCall) : Option String :=
  (h.refusal.filter (·.covers call)).map (·.reason)

/-- Notes a call and carries it out unless it is refused. -/
def perform {α : Type} (call : SinkCall) (effect : SinkHost → α × SinkHost) :
    StateM SinkHost (Except String α) := fun h =>
  let h := { h with calls := h.calls ++ [call] }
  match h.reason? call with
  | some reason => (.error reason, h)
  | none =>
    let (value, h) := effect h
    (.ok value, h)

/-- The object of the host, whose values are texts that say what they are. -/
def sink : Sink (StateM SinkHost) String where
  createText text := perform ⟨.createText, text⟩ fun h => ("string " ++ text, h)
  createReference handle :=
    perform ⟨.createReference, handle.text⟩ fun h => ("external " ++ handle.text, h)
  attach key value :=
    perform ⟨.attach, key⟩ fun h => ((), { h with attached := h.attached ++ [(key, value)] })

/-- The host as the loader sees it. -/
def host : Host (StateM SinkHost) where
  usable := return (← get).usable
  description := return (← get).label
  publish := sink.publish

end SinkHost

end GrammarModule
