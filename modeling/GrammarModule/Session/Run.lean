import GrammarModule.Session.Basic

/-!
# GrammarModule.Session.Run

The operations on a session, one at a time. Every record that loading or registering gives is kept
under the next number; operations name entries, hosts, records and slots by their numbers, and one
on something that does not exist does nothing. Copies share the function of an
entry and nothing else: a copied host or slot is a new one with the same content.
-/

namespace GrammarModule

inductive Operation where
  | resolve (entry : Nat)
  | load (entry : Nat) (host : Option Nat)
  | register (entry : Nat) (host : Option Nat)
  | publish (host record : Nat)
  | cloneHost (host : Nat)
  | copyEntry (entry : Nat)
  | setAddress (entry : Nat) (address : UInt64)
  | setRefusal (host : Nat) (refusal : Option Refusal)
  | setUsable (host : Nat) (usable : Bool)
  | compare (first second : Nat)
  | newSlot
  | copySlot (slot : Nat)
  | fillSlot (slot record : Nat)
  | compareSlots (first second : Nat)
  | inspect
  deriving DecidableEq, Repr

/-- In which respects two records agree. -/
structure Comparison where
  whole : Bool
  name : Bool
  handle : Bool
  hash : Bool
  items : Bool
  summary : Bool
  deriving DecidableEq, Repr

inductive Outcome where
  | resolved (entry : Entry) (handle : Except Failure Handle)
  | record (result : Except Failure Exports)
  | published (result : Except Failure Unit)
  | number (index : Nat)
  | compared (comparison : Comparison)
  | equal (value : Bool)
  | nothing
  | absent

def Exports.compare (a b : Exports) : Comparison where
  whole := a = b
  name := a.name == b.name
  handle := a.handle = b.handle
  hash := hash a == hash b
  items := a.items = b.items
  summary := a.summary = b.summary

namespace Session

/-- Keeps the record that an operation gave, if it gave one. -/
def keep (result : Except Failure Exports) : StateM Session Outcome := fun s =>
  match result with
  | .ok exports => (.record result, { s with records := s.records ++ [exports] })
  | .error _ => (.record result, s)

/-- The host that an operation names, if it names one. -/
def target (s : Session) (host : Option Nat) : Option (Host (StateM Session)) :=
  host.bind s.host?

/-- Changes the sink host of the given number. -/
def modifySink (index : Nat) (change : SinkHost → SinkHost) : StateM Session Outcome := fun s =>
  match s.hosts[index]? with
  | some (.sink host) => (.nothing, { s with hosts := s.hosts.set index (.sink (change host)) })
  | _ => (.nothing, s)

def perform (operation : Operation) : StateM Session Outcome := do
  let s ← get
  match operation with
  | .resolve entry =>
    match s.entries[entry]? with
    | none => return .absent
    | some entry => return .resolved entry (← (source entry).resolve)
  | .load entry host =>
    match s.entries[entry]? with
    | none => return .absent
    | some entry => keep (← (source entry).load (s.target host))
  | .register entry host =>
    match s.entries[entry]? with
    | none => return .absent
    | some entry => keep (← (source entry).register (s.target host))
  | .publish host record =>
    match s.host? host, s.records[record]? with
    | some host, some exports => return .published (← host.publish exports)
    | _, _ => return .absent
  | .cloneHost host =>
    match s.hosts[host]? with
    | none => return .absent
    | some host => do
      set { s with hosts := s.hosts ++ [host] }
      return .number s.hosts.length
  | .copyEntry entry =>
    match s.entries[entry]? with
    | none => return .absent
    | some entry => do
      set { s with entries := s.entries ++ [entry] }
      return .number s.entries.length
  | .setAddress entry address =>
    match s.entries[entry]?.bind (·.function?) with
    | none => return .nothing
    | some index => do
      set { s with functions := s.functions.modify index fun f => { f with address } }
      return .nothing
  | .setRefusal host refusal => modifySink host fun h => { h with refusal }
  | .setUsable host usable => modifySink host fun h => { h with usable }
  | .compare first second =>
    match s.records[first]?, s.records[second]? with
    | some a, some b => return .compared (a.compare b)
    | _, _ => return .absent
  | .newSlot => do
    set { s with slots := s.slots ++ [Slot.empty] }
    return .number s.slots.length
  | .copySlot slot =>
    match s.slots[slot]? with
    | none => return .absent
    | some slot => do
      set { s with slots := s.slots ++ [slot] }
      return .number s.slots.length
  | .fillSlot slot record =>
    match s.slots[slot]?, s.records[record]? with
    | some content, some exports =>
      match content.fill exports with
      | .ok filled => do
        set { s with slots := s.slots.set slot filled }
        return .published (.ok ())
      | .error failure => return .published (.error failure)
    | _, _ => return .absent
  | .compareSlots first second =>
    match s.slots[first]?, s.slots[second]? with
    | some a, some b => return .equal (a = b)
    | _, _ => return .absent
  | .inspect => return .nothing

/-- The outcomes of operations, in order, each with the session after it. -/
def run (s : Session) : List Operation → List (Outcome × Session)
  | [] => []
  | operation :: rest =>
    let (outcome, next) := (perform operation).run s
    (outcome, next) :: run next rest

end Session

end GrammarModule
