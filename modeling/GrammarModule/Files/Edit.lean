import GrammarModule.Files.Tree

/-!
# GrammarModule.Files.Edit

Changes to a file tree: writing a file, making directories and links, and removing. The
directories on the way are made when they are missing, and a change that is not possible leaves
the tree as it was.
-/

namespace GrammarModule
namespace FileTree

/-- A tree with an empty working directory two levels below the root, and the null device. -/
def fresh : FileTree :=
  let name (s : String) : List UInt8 := Text.encode s.toList
  { root := .directory [(name "dev", .directory [(name "null", .device)]),
      (name "tmp", .directory [(name "work", .directory [])])]
    here := [name "tmp", name "work"] }

/-- The tree with the directories along the segments, and the location of the last. -/
def ensure (root : Node) (directory : Location) :
    List (List UInt8) → Option (Node × Location)
  | [] => some (root, directory)
  | segment :: rest =>
    match walk root linkLimit directory [segment] with
    | .error _ => none
    | .ok next =>
      match root.get? next with
      | some (.directory _) => ensure root next rest
      | some _ => none
      | none =>
        if next = directory ++ [segment] then ensure (root.put next (.directory [])) next rest
        else none

/-- The segments of a path that lead somewhere. -/
def steps (path : Path) : List (List UInt8) :=
  path.segments.filter fun s => s ≠ [] ∧ s ≠ [Path.dot]

/-- The tree after a change, if that was possible. -/
def changed (t : FileTree) : Option Node → FileTree
  | some root => { t with root }
  | none => t

/-- Makes the directories before the last segment of a path and changes what is in the last. -/
def atLast (t : FileTree) (path : Path)
    (change : Node → Location → List UInt8 → Option Node) : FileTree :=
  t.changed do
    let name ← (steps path).getLast?
    let (root, directory) ← ensure t.root (origin t.here path) (steps path).dropLast
    change root directory name

/-- Writes a file, in the place of one that is there; links are followed. -/
def write (t : FileTree) (path : Path) (contents : List UInt8) : FileTree :=
  t.atLast path fun root directory name =>
    match walk root linkLimit directory [name] with
    | .error _ => none
    | .ok location =>
      match root.get? location with
      | none | some (.file _) => some (root.put location (.file contents))
      | some _ => none

/-- Makes a directory and those above it. -/
def makeDirectory (t : FileTree) (path : Path) : FileTree :=
  t.atLast path fun root directory name => (ensure root directory [name]).map (·.1)

/-- Makes a link where nothing is yet. -/
def makeLink (t : FileTree) (path target : Path) : FileTree :=
  t.atLast path fun root directory name =>
    match root.get? (directory ++ [name]) with
    | none => some (root.put (directory ++ [name]) (.link target))
    | some _ => none

/-- Removes a file, a link or a whole directory. -/
def remove (t : FileTree) (path : Path) : FileTree :=
  t.changed do
    let name ← (steps path).getLast?
    let directory ← (walk t.root linkLimit (origin t.here path) (steps path).dropLast).toOption
    some (t.root.erase (directory ++ [name]))

end FileTree
end GrammarModule
