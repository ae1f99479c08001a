import GrammarModule.Catalogue.File
import GrammarModule.Command.Request
import GrammarModule.Session.Basic

/-!
# GrammarModule.Command.Report

The answer to a command line: an exit code, a document on the output, and an error text with the
causes of the error. A search that finds nothing is answered like one that does; only a place that
cannot be looked at is an error.
-/

namespace GrammarModule
namespace Command

structure Report where
  exitCode : Nat
  output : String
  error : Option String
  deriving DecidableEq, Repr

namespace Report

/-- A document on the output, ended by a line break. -/
def document (exitCode : Nat) (v : Json.Value) : Report :=
  ⟨exitCode, v.prettyText ++ "\n", none⟩

/-- The causes of an error, indented, and numbered if there are several. -/
def causeLines : List String → String
  | [] => ""
  | [cause] => "\n\nCaused by:\n    " ++ cause
  | causes =>
    let line (cause : String × Nat) : String := "\n    " ++ toString cause.2 ++ ": " ++ cause.1
    "\n\nCaused by:" ++ String.join (causes.zipIdx.map line)

def failure (message : String) (causes : List String) : Report :=
  ⟨1, "", some ("Error: " ++ message ++ causeLines causes ++ "\n")⟩

/-- A failure and what it wraps. -/
def causesOf (f : Failure) : List String :=
  match f with
  | .malformedMetadata e => [f.message, e.message]
  | .storage e => [f.message, e.message]
  | _ => [f.message]

def usageText : String :=
  "Usage: abl-inspect [--verbose] record [--invalid-host]\n" ++
  "       abl-inspect [--verbose] locate [--root ROOT] [--abi ABI] [--platform PLATFORM]\n" ++
  "       abl-inspect [--verbose] node-types PATH [--named]\n"

def ofStop : Stop → Report
  | .usage => ⟨2, "", none⟩
  | .help => ⟨0, usageText, none⟩
  | .version => ⟨0, "abl-inspect 0.1.0\n", none⟩

/-- Registers the module of this build with a host in memory. -/
def ofRecord (usable : Bool) : Report :=
  let label := "abl-inspect"
  let host : SlotHost := if usable then .new label else .unusable label
  let session : Session := ⟨[], [.ofBuild], [.slot host], [], []⟩
  let result := ((Session.source .ofBuild).register (session.host? 0)).run session |>.1
  let members (record error : Json.Value) : Json.Value :=
    .object [("host", .text label), ("record", record), ("error", error)]
  match result with
  | .ok exports => document 0 (members (Exports.Summary.format.write exports.summary) .null)
  | .error failure => document 1 (members .null (.text failure.message))

/-- The path as a document, which has no room for bytes that are no text. -/
def pathValue? (path : Path) : Option Json.Value := path.text?.map .text

/-- Searches for the binding. -/
def ofLocate (files : Files) (search : BindingSearch) : Report :=
  match search.locate files with
  | .error (.storage e) => failure "failed to probe binding locations" (causesOf (.storage e))
  | result =>
    let found? : Option Json.Value :=
      match result with
      | .ok path => pathValue? path
      | .error _ => some .null
    match search.candidates.mapM pathValue?, found? with
    | some candidates, some found =>
      document 0 (.object [("candidates", .list candidates), ("found", found)])
    | _, _ => failure "path contains invalid UTF-8 characters" []

/-- Summarizes the metadata in a file. -/
def ofKinds (files : Files) (path : Path) (namedOnly : Bool) : Report :=
  let whole (n : Nat) : Json.Value := .number (.whole n)
  match Catalogue.load files path with
  | .error f => failure ("failed to read " ++ path.shown) (causesOf f)
  | .ok none => failure (path.shown ++ " does not exist") []
  | .ok (some c) =>
    document 0 (.object [("count", whole c.size), ("supertypes", whole c.supertypes.length),
      ("kinds", .list ((if namedOnly then c.named else c.entries).map fun e => .text e.kind))])

def ofRequest (files : Files) : Request → Report
  | .record usable => ofRecord usable
  | .locate search => ofLocate files search
  | .kinds path namedOnly => ofKinds files path namedOnly

end Report

/-- The places where a request asks what is there. -/
def Request.places : Request → List Path
  | .locate search => search.candidates
  | .record _ | .kinds _ _ => []

/-- The files that a request reads. -/
def Request.sources : Request → List Path
  | .kinds path _ => [path]
  | .record _ | .locate _ => []

/-- Answers a command line. -/
def run (files : Files) (env : Environment) (arguments : List (List UInt8)) : Report :=
  match Request.read env arguments with
  | .error stop => .ofStop stop
  | .ok request => .ofRequest files request

end Command
end GrammarModule
