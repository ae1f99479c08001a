import GrammarModule.Files.Basic

/-!
# GrammarModule.BindingSearch

Finding the compiled binding of a module. A prebuilt binary for the platform and the version of
the binary interface comes first, if that version is known, and then the outputs of local builds.
The first place with a regular file wins; places where nothing or something else is are passed
over, and one that cannot be looked at stops the search.
-/

namespace GrammarModule

/-- Where and what to look for. -/
structure BindingSearch where
  /-- The directory of the package. -/
  root : Path
  /-- The file name of the binary without its ending. -/
  stem : String
  /-- The directory of prebuilt binaries for the platform. -/
  platform : String
  /-- The version of the binary interface; without it there are no prebuilt binaries. -/
  abi : Option UInt32
  deriving DecidableEq, Repr

namespace BindingSearch

/-- The file name that the build gives to the binary, without its ending. -/
def usualStem : String := "tree_sitter_abl_binding"

/-- The platform that the library runs on. -/
def ownPlatform : String := "linux-x64"

instance : Inhabited BindingSearch := ⟨⟨.ofText ".", usualStem, ownPlatform, none⟩⟩

/-- The same search, the roots being two spellings of one path. -/
def Alike (s t : BindingSearch) : Prop :=
  s.root.Alike t.root ∧ s.stem = t.stem ∧ s.platform = t.platform ∧ s.abi = t.abi

instance (s t : BindingSearch) : Decidable (s.Alike t) := inferInstanceAs (Decidable (_ ∧ _))

/-- The prebuilt binary for a version of the binary interface. -/
def prebuilt (s : BindingSearch) (abi : UInt32) : Path :=
  ((s.root.join (.ofText "prebuilds")).join (.ofText s.platform)).join
    (.ofText (s.stem ++ "-" ++ Nat.repr abi.toNat ++ ".node"))

/-- The output of a local build with the given profile. -/
def built (s : BindingSearch) (profile : String) : Path :=
  ((s.root.join (.ofText "build")).join (.ofText profile)).join
    (.ofText (s.stem ++ ".node"))

/-- Every place that is searched, in order. -/
def candidates (s : BindingSearch) : List Path :=
  (s.abi.map s.prebuilt).toList ++ [s.built "Release", s.built "Debug"]

/-- The first of some places with a regular file. -/
def firstRegular (files : Files) : List Path → Except StorageError (Option Path)
  | [] => .ok none
  | path :: rest => do
    if ← files.isRegular path then .ok (some path) else firstRegular files rest

/-- The place of the compiled binding. -/
def locate (files : Files) (s : BindingSearch) : Except Failure Path :=
  match firstRegular files s.candidates with
  | .error e => .error (.storage e)
  | .ok none => .error (.bindingNotFound s.candidates)
  | .ok (some path) => .ok path

end BindingSearch
end GrammarModule
