import GrammarModule.Text.Utf8

/-!
# GrammarModule.Path

Paths as they are spelled: any bytes, split at slashes. Joining keeps the spelling of both parts,
and two paths are alike when they have the same components, which forgets repeated slashes and
the dots that lead nowhere.
-/

namespace GrammarModule

structure Path where
  bytes : List UInt8
  deriving DecidableEq, Repr, Inhabited

namespace Path

def slash : UInt8 := 0x2f

def dot : UInt8 := 0x2e

def ofText (s : String) : Path := ⟨Text.encode s.toList⟩

/-- The path as a text, if its bytes encode one. -/
def text? (p : Path) : Option String := (Text.decode? p.bytes).map String.ofList

/-- The path as it is shown to a reader, whatever its bytes are. -/
def shown (p : Path) : String := String.ofList (Text.decodeLossy p.bytes)

def isAbsolute (p : Path) : Bool := p.bytes.head? == some slash

/-- `q` as seen from `p`: an absolute `q` stands for itself, and otherwise one slash separates the
two, unless `p` is empty or ends with one. -/
def join (p q : Path) : Path :=
  if q.isAbsolute then q
  else if p.bytes.isEmpty || p.bytes.getLast? == some slash then ⟨p.bytes ++ q.bytes⟩
  else ⟨p.bytes ++ slash :: q.bytes⟩

/-- What stands between the slashes, empty parts included. -/
def segmentsOf : List UInt8 → List (List UInt8)
  | [] => [[]]
  | b :: rest =>
    match segmentsOf rest with
    | [] => [[b]]
    | first :: others => if b = slash then [] :: first :: others else (b :: first) :: others

def segments (p : Path) : List (List UInt8) := segmentsOf p.bytes

/-- A step of a path. -/
inductive Component where
  | root
  | current
  | parent
  | name (bytes : List UInt8)
  deriving DecidableEq, Repr

/-- The step that a segment stands for; empty segments and single dots are none. -/
def step? (segment : List UInt8) : Option Component :=
  if segment = [] ∨ segment = [dot] then none
  else if segment = [dot, dot] then some .parent
  else some (.name segment)

/-- The steps of a path. A single dot counts only where a relative path begins with it. -/
def components (p : Path) : List Component :=
  let steps := p.segments.filterMap step?
  if p.isAbsolute then .root :: steps
  else if p.segments.head? = some [dot] then .current :: steps
  else steps

/-- Two spellings of one sequence of steps. -/
def Alike (p q : Path) : Prop := p.components = q.components

instance (p q : Path) : Decidable (p.Alike q) := inferInstanceAs (Decidable (_ = _))

end Path
end GrammarModule
