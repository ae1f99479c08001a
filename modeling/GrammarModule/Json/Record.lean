import GrammarModule.Json.Codec

/-!
# GrammarModule.Json.Record

Records with named members. A record is read from an object, whose members may come in any order
and among others that are skipped, or from a list of its members in declared order. A required
member must be there, an optional one has a default and is not written when it has it. A repeated
member is refused before its value is read.
-/

namespace GrammarModule
namespace Json

/-- One member of a record: reading it stores it, and writing it may leave it out. -/
structure Member (ρ : Type) where
  key : String
  required : Bool
  read : ρ → Cursor → Except Error (ρ × Cursor)
  write : ρ → Option Value

namespace Member

variable {ρ α : Type}

/-- Reads a value and stores it in the record. -/
def store (codec : Codec α) (set : ρ → α → ρ) (r : ρ) (c : Cursor) :
    Except Error (ρ × Cursor) := do
  let (value, c) ← codec.read c
  .ok (set r value, c)

def ofRequired (key : String) (codec : Codec α) (get : ρ → α) (set : ρ → α → ρ) : Member ρ :=
  ⟨key, true, store codec set, fun r => some (codec.write (get r))⟩

/-- A member that is left out when `omitted` holds of its value. -/
def ofOptional (key : String) (codec : Codec α) (omitted : α → Bool) (get : ρ → α)
    (set : ρ → α → ρ) : Member ρ :=
  ⟨key, false, store codec set, fun r =>
    if omitted (get r) then none else some (codec.write (get r))⟩

end Member

/-- The written form of a record: the name that messages use, the record before any member has
been read, and the members in declared order, the required ones first. -/
structure RecordFormat (ρ : Type) where
  name : String
  blank : ρ
  members : List (Member ρ)

namespace RecordFormat

variable {ρ : Type}

def member? (format : RecordFormat ρ) (key : String) : Option (Member ρ) :=
  format.members.find? (·.key == key)

/-- One member of an object, after its key: the record so far is kept with the known keys that
have been read. -/
def readMember (format : RecordFormat ρ) (state : ρ × List String) (key : String) (c : Cursor) :
    Except Error ((ρ × List String) × Cursor) :=
  match format.member? key with
  | none => do .ok (state, ← skipValue (← expectColon c))
  | some member =>
    if state.2.contains key then .error ⟨.duplicateMember key, closedObjectPosition c⟩
    else do
      let (record, c) ← member.read state.1 (← expectColon c)
      .ok ((record, key :: state.2), c)

/-- The record that an object denotes, after its opening brace. -/
def readObject (format : RecordFormat ρ) (c : Cursor) : Except Error (ρ × Cursor) := do
  let ((record, keys), c) ← readMembers format.readMember c.rest true (format.blank, []) c
  match format.members.find? fun member => member.required && !keys.contains member.key with
  | some member => c.failHere (.missingMember member.key)
  | none => .ok (record, c)

/-- The members of a list, `index` of them having been read, up to the closing bracket. -/
def readPositional (format : RecordFormat ρ) (index : Nat) (record : ρ) (c : Cursor) :
    List (Member ρ) → Except Error (ρ × Cursor)
  | [] => do .ok (record, ← closeList c)
  | member :: rest => do
    let (more, c) ← nextItem (index == 0) c
    if more then
      let (record, c) ← member.read record c
      format.readPositional (index + 1) record c rest
    else if member.required then
      c.failHere (.tooShort index format.name format.members.length)
    else .ok (record, c)

def read (format : RecordFormat ρ) (c : Cursor) : Except Error (ρ × Cursor) :=
  let c := c.skipBlank
  match c.rest with
  | '[' :: _ => format.readPositional 0 format.blank c.advance format.members
  | '\x7b' :: _ => format.readObject c.advance
  | _ => refuseValue (.record format.name) c

def write (format : RecordFormat ρ) (record : ρ) : Value :=
  .object (format.members.filterMap fun member =>
    (member.write record).map fun value => (member.key, value))

def codec (format : RecordFormat ρ) : Codec ρ := ⟨format.read, format.write⟩

end RecordFormat

end Json
end GrammarModule
