import GrammarModule.Session.Hosts

/-!
# GrammarModule.Session.Basic

Sessions: functions that give addresses, entries that call them, hosts, and the exports that
loading gave. Several entries may share one function.
-/

namespace GrammarModule

/-- A function of a grammar library: the address that it gives, and how often it was called. -/
structure LanguageFunction where
  address : UInt64
  calls : Nat
  deriving DecidableEq, Repr

/-- A symbol and, if the build has it, the number of its function. -/
structure Entry where
  symbol : String
  function? : Option Nat
  deriving DecidableEq, Repr

namespace Entry

def isResolved (e : Entry) : Bool := e.function?.isSome

/-- The entry of a build without the grammar. -/
def unresolved (symbol : String) : Entry := ⟨symbol, none⟩

/-- The symbol under which the grammar library offers its tables. -/
def grammarSymbol : String := "tree_sitter_abl"

/-- The entry of this build, which the grammar is not linked into. -/
def ofBuild : Entry := .unresolved grammarSymbol

end Entry

inductive SessionHost where
  | slot (host : SlotHost)
  | sink (host : SinkHost)
  deriving DecidableEq

structure Session where
  functions : List LanguageFunction
  entries : List Entry
  hosts : List SessionHost
  records : List Exports
  slots : List Slot
  deriving DecidableEq

namespace Session

/-- Calls a function: a null address gives no handle. -/
def call (index : Nat) : StateM Session (Option Handle) := fun s =>
  match s.functions[index]? with
  | none => (none, s)
  | some f =>
    (Handle.ofAddress? f.address,
      { s with functions := s.functions.set index { f with calls := f.calls + 1 } })

/-- An entry as the loader sees it. -/
def source (entry : Entry) : Source (StateM Session) where
  symbol := entry.symbol
  resolve :=
    match entry.function? with
    | none => return .error (.unresolvedSymbol entry.symbol)
    | some index => do
      match ← call index with
      | none => return .error (.unresolvedSymbol entry.symbol)
      | some handle => return .ok handle

/-- Runs an operation of a host on the host of the given number, which the session has. -/
def onHost {α : Type} (index : Nat) (absent : α) (onSlot : StateM SlotHost α)
    (onSink : StateM SinkHost α) : StateM Session α := fun s =>
  match s.hosts[index]? with
  | none => (absent, s)
  | some (.slot host) =>
    let (result, host) := onSlot host
    (result, { s with hosts := s.hosts.set index (.slot host) })
  | some (.sink host) =>
    let (result, host) := onSink host
    (result, { s with hosts := s.hosts.set index (.sink host) })

/-- The host of the given number as the loader sees it. -/
def host (index : Nat) : Host (StateM Session) where
  usable := onHost index false SlotHost.host.usable SinkHost.host.usable
  description := onHost index "" SlotHost.host.description SinkHost.host.description
  publish exports := onHost index (.error Source.hostMissing) (SlotHost.host.publish exports)
    (SinkHost.host.publish exports)

/-- The host of the given number, if the session has it. -/
def host? (s : Session) (index : Nat) : Option (Host (StateM Session)) :=
  if index < s.hosts.length then some (host index) else none

end Session

end GrammarModule
