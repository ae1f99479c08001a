import GrammarModule.Failure

/-!
# GrammarModule.Files.Basic

What the library asks of a file system: the kind of the object at a path, and its contents, links
being followed in both cases.
-/

namespace GrammarModule

inductive FileKind where
  | regular
  | other
  deriving DecidableEq, Repr

structure Files where
  kind : Path → Except StorageError FileKind
  contents : Path → Except StorageError (List UInt8)

namespace Files

/-- Whether there is a regular file. What does not exist is none; what cannot be looked at for
another reason is an error. -/
def isRegular (files : Files) (path : Path) : Except StorageError Bool :=
  match files.kind path with
  | .ok kind => .ok (kind = .regular)
  | .error .notFound => .ok false
  | .error e => .error e

/-- The text of a file, or nothing if there is no such file. -/
def text? (files : Files) (path : Path) : Except StorageError (Option String) :=
  match files.contents path with
  | .error .notFound => .ok none
  | .error e => .error e
  | .ok bytes =>
    match Text.decode? bytes with
    | some text => .ok (some (String.ofList text))
    | none => .error .notUtf8

end Files
end GrammarModule
