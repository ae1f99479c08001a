import GrammarModule.Catalogue.Format
import GrammarModule.Files.Basic

/-!
# GrammarModule.Catalogue.File

Catalogues from files. The metadata is optional, so a file that does not exist is no failure; one
that is there has to be readable and well formed.
-/

namespace GrammarModule

/-- The catalogue in a file, or nothing if there is no such file. -/
def Catalogue.load (files : Files) (path : Path) : Except Failure (Option Catalogue) :=
  match files.text? path with
  | .error e => .error (.storage e)
  | .ok none => .ok none
  | .ok (some text) => (Catalogue.parse text).map some

end GrammarModule
