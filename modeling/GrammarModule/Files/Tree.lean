import GrammarModule.Files.Basic

/-!
# GrammarModule.Files.Tree

File trees with links, and how a path leads through one. A path is walked segment by segment from
the root or the working directory; every segment needs a directory to be looked up in, the last
one included when a slash follows it, and a link stands for the segments of its target.
-/

namespace GrammarModule

/-- The names on the way from the root to an object. -/
abbrev Location := List (List UInt8)

inductive Node where
  | file (contents : List UInt8)
  | directory (entries : List (List UInt8 × Node))
  | link (target : Path)
  /-- A device that has nothing to read and forgets what is written. -/
  | device
  deriving Inhabited

namespace Node

/-- The object at a location, links not being followed. -/
def get? : Node → Location → Option Node
  | node, [] => some node
  | .directory entries, name :: rest => (entries.lookup name).bind (·.get? rest)
  | _, _ :: _ => none

def isDirectory : Node → Bool
  | .directory _ => true
  | _ => false

/-- Stores an object among the entries of a directory, in the place of one of that name. -/
def putEntry (name : List UInt8) (node : Node) :
    List (List UInt8 × Node) → List (List UInt8 × Node)
  | [] => [(name, node)]
  | entry :: rest =>
    if entry.1 = name then (name, node) :: rest else entry :: putEntry name node rest

/-- The tree with an object at a location whose directory exists. -/
def put : Node → Location → Node → Node
  | _, [], new => new
  | .directory entries, name :: rest, new =>
    let child := (entries.lookup name).getD (.directory [])
    .directory (putEntry name (child.put rest new) entries)
  | node, _ :: _, _ => node

/-- The tree without the object at a location. -/
def erase : Node → Location → Node
  | .directory entries, [name] => .directory (entries.filter (·.1 != name))
  | .directory entries, name :: rest =>
    match entries.lookup name with
    | some child => .directory (putEntry name (child.erase rest) entries)
    | none => .directory entries
  | node, _ => node

end Node

/-- The objects below the root, and the working directory. -/
structure FileTree where
  root : Node
  here : Location
  deriving Inhabited

namespace FileTree

/-- The longest name that a directory can hold. -/
def nameLimit : Nat := 255

/-- The length from which on a path is refused as a whole. -/
def pathLimit : Nat := 4096

/-- How many links one path may pass. -/
def linkLimit : Nat := 40

/-- Where the walk along a path begins. -/
def origin (here : Location) (path : Path) : Location := if path.isAbsolute then [] else here

/-- Walks along segments from a directory; `follow` goes on at a link, given the directory that
holds it, its target and the segments after it. The location that is reached exists, or only its
last name is missing. -/
def walkWith (follow : Location → Path → List (List UInt8) → Except StorageError Location)
    (root : Node) : Location → List (List UInt8) → Except StorageError Location
  | directory, [] => .ok directory
  | directory, segment :: rest =>
    if !((root.get? directory).any (·.isDirectory)) then .error .notDirectory
    else if segment = [] ∨ segment = [Path.dot] then walkWith follow root directory rest
    else if segment = [Path.dot, Path.dot] then walkWith follow root directory.dropLast rest
    else if nameLimit < segment.length then .error .nameTooLong
    else
      let next := directory ++ [segment]
      match root.get? next with
      | some (.link target) => follow directory target rest
      | some _ => walkWith follow root next rest
      | none => if rest.isEmpty then .ok next else .error .notFound

/-- Walks along segments from a directory, through at most as many links as given. -/
def walk (root : Node) : Nat → Location → List (List UInt8) → Except StorageError Location
  | 0 => walkWith (fun _ _ _ => .error .tooManyLinks) root
  | links + 1 => walkWith (fun directory target rest =>
      walk root links (origin directory target) (target.segments ++ rest)) root

/-- The location that a path leads to. -/
def reach (t : FileTree) (path : Path) : Except StorageError Location :=
  if path.bytes.contains 0 then .error .nulInName
  else if path.bytes.isEmpty then .error .notFound
  else if pathLimit ≤ path.bytes.length then .error .nameTooLong
  else walk t.root linkLimit (origin t.here path) path.segments

/-- The object that a path leads to. -/
def node (t : FileTree) (path : Path) : Except StorageError Node := do
  match t.root.get? (← t.reach path) with
  | some node => .ok node
  | none => .error .notFound

/-- The tree as the library sees it. -/
def files (t : FileTree) : Files where
  kind path := do
    match ← t.node path with
    | .file _ => .ok .regular
    | _ => .ok .other
  contents path := do
    match ← t.node path with
    | .file contents => .ok contents
    | .directory _ => .error .isDirectory
    | .device | .link _ => .ok []

end FileTree
end GrammarModule
