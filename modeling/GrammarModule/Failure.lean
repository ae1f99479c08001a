import GrammarModule.Json.Error
import GrammarModule.Path

/-!
# GrammarModule.Failure

Everything that can go wrong between a host and a grammar module, by cause, and the one message
of each cause.
-/

namespace GrammarModule

/-- Why a file could not be looked at or read. -/
inductive StorageError where
  | notFound
  | notDirectory
  | isDirectory
  | nameTooLong
  | tooManyLinks
  | nulInName
  | notUtf8
  | other (text : String)
  deriving DecidableEq, Repr

def StorageError.message : StorageError → String
  | .notFound => "No such file or directory (os error 2)"
  | .notDirectory => "Not a directory (os error 20)"
  | .isDirectory => "Is a directory (os error 21)"
  | .nameTooLong => "File name too long (os error 36)"
  | .tooManyLinks => "Too many levels of symbolic links (os error 40)"
  | .nulInName => "file name contained an unexpected NUL byte"
  | .notUtf8 => "stream did not contain valid UTF-8"
  | .other text => text

/-- The error that a system call reports by a number, if it is one of those with a cause here. -/
def StorageError.ofCode? : Nat → Option StorageError
  | 2 => some .notFound
  | 20 => some .notDirectory
  | 21 => some .isDirectory
  | 36 => some .nameTooLong
  | 40 => some .tooManyLinks
  | _ => none

inductive Failure where
  /-- The grammar is not part of this build, or gave no handle. -/
  | unresolvedSymbol (symbol : String)
  /-- The host is missing or cannot take exports. -/
  | invalidHost (reason : String)
  | alreadyRegistered (name : String)
  /-- The host refused one of the exports. -/
  | exportRejected (field reason : String)
  /-- None of the places that were searched, in this order, has the compiled binding. -/
  | bindingNotFound (searched : List Path)
  | malformedMetadata (error : Json.Error)
  | storage (error : StorageError)
  deriving DecidableEq, Repr

namespace Failure

def message : Failure → String
  | .unresolvedSymbol symbol => "grammar entry point `" ++ symbol ++ "` could not be resolved"
  | .invalidHost reason => "invalid host environment: " ++ reason
  | .alreadyRegistered name => "module `" ++ name ++ "` is already registered with this host"
  | .exportRejected field reason => "host rejected export `" ++ field ++ "`: " ++ reason
  | .bindingNotFound searched =>
    "no compiled binding found (searched " ++ toString searched.length ++ " locations)"
  | .malformedMetadata error => "invalid node type metadata: " ++ error.message
  | .storage error => "I/O error: " ++ error.message

/-- The build is at fault, and not the host. -/
def isBuildFault : Failure → Bool
  | .unresolvedSymbol _ => true
  | _ => false

end Failure
end GrammarModule
