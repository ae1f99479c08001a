import GrammarModule.Command.Report

/-!
# GrammarModule.Main

The program around `Command.run`: it hands over the arguments, the settings of the environment and
what the request needs to know of the file system, and prints the report.
-/

namespace GrammarModule

/-- The cause of a failed system call. -/
def storageErrorOf (e : IO.Error) : StorageError :=
  let known (code : UInt32) : StorageError :=
    (StorageError.ofCode? code.toNat).getD (.other (toString e))
  match e with
  | .noFileOrDirectory _ _ _ => .notFound
  | .inappropriateType _ code _ => known code
  | .invalidArgument _ code _ => known code
  | .otherError code _ => known code
  | e => .other (toString e)

/-- Runs an action on the path of a file, whose failure is the answer. -/
def onFile {α : Type} (path : Path) (action : String → IO α) : IO (Except StorageError α) :=
  match path.text? with
  | none => return .error .notFound
  | some name => do
    if name.contains '\x00' then return .error .nulInName
    try
      return .ok (← action name)
    catch e =>
      return .error (storageErrorOf e)

/-- What is at a path: a directory can be opened and not be read. -/
def kindAt (path : Path) : IO (Except StorageError FileKind) := do
  let opened ← onFile path fun name => do
    let handle ← IO.FS.Handle.mk name .read
    discard (handle.read 1)
  return match opened with
    | .ok () => .ok .regular
    | .error .isDirectory => .ok .other
    | .error e => .error e

def contentsAt (path : Path) : IO (Except StorageError (List UInt8)) :=
  onFile path fun name => return (← IO.FS.readBinFile name).toList

/-- The file system as far as a request looks at it. -/
def filesFor (request : Command.Request) : IO Files := do
  let kinds ← request.places.mapM fun path => return (path, ← kindAt path)
  let contents ← request.sources.mapM fun path => return (path, ← contentsAt path)
  return {
    kind := fun path => (kinds.lookup path).getD (.error .notFound)
    contents := fun path => (contents.lookup path).getD (.error .notFound) }

def bytesOf (s : String) : List UInt8 := Text.encode s.toList

/-- The value of a variable of the environment. -/
def setting? (name : String) : IO (Option (List UInt8)) :=
  return (← IO.getEnv name).map bytesOf

end GrammarModule

open GrammarModule Command

def main (args : List String) : IO UInt32 := do
  let env : Environment :=
    ⟨← setting? Environment.rootVariable, ← setting? Environment.abiVariable⟩
  let arguments := args.map bytesOf
  let files ←
    match Request.read env arguments with
    | .ok request => filesFor request
    | .error _ => pure ⟨fun _ => .error .notFound, fun _ => .error .notFound⟩
  let report := run files env arguments
  IO.print report.output
  match report.error with
  | some text => IO.eprint text
  | none => if report.exitCode = 2 then IO.eprint Report.usageText
  return report.exitCode.toUInt32
