import GrammarModule.Json.Table

/-!
# GrammarModule.Catalogue.Basic

The node kinds that a grammar can produce. Named kinds come from rules, anonymous ones are literal
tokens; an entry says which kinds may fill the fields and the other children of its nodes, and a
supertype lists the kinds that belong to it. A catalogue keeps its entries in written order and
may list a kind more than once.
-/

namespace GrammarModule

/-- A kind that a field, a child list or a supertype mentions. -/
structure KindRef where
  kind : String
  named : Bool
  deriving DecidableEq, Repr, Inhabited

/-- Which kinds may stand in a place, and how often. -/
structure ChildRule where
  multiple : Bool
  required : Bool
  types : List KindRef
  deriving DecidableEq, Repr, Inhabited

structure KindEntry where
  kind : String
  named : Bool
  fields : Json.Table ChildRule
  children : Option ChildRule
  subtypes : Option (List KindRef)
  deriving DecidableEq, Repr, Inhabited

/-- A kind with a list of subtypes, be it an empty one. -/
def KindEntry.isSupertype (e : KindEntry) : Bool := e.subtypes.isSome

structure Catalogue where
  entries : List KindEntry
  deriving DecidableEq, Repr, Inhabited

namespace Catalogue

def size (c : Catalogue) : Nat := c.entries.length

def isEmpty (c : Catalogue) : Bool := c.entries.isEmpty

/-- The kinds of all entries. -/
def kinds (c : Catalogue) : List String := c.entries.map (·.kind)

/-- The entries of kinds that come from rules. -/
def named (c : Catalogue) : List KindEntry := c.entries.filter (·.named)

def supertypes (c : Catalogue) : List KindEntry := c.entries.filter (·.isSupertype)

/-- Of two entries of one kind the named one, and of two alike the later one. -/
def prefer (earlier : Option KindEntry) (later : KindEntry) : KindEntry :=
  match earlier with
  | none => later
  | some e => if e.named && !later.named then e else later

/-- The entry that is preferred among those of a kind. -/
def find? (c : Catalogue) (kind : String) : Option KindEntry :=
  (c.entries.filter (·.kind == kind)).foldl (fun best e => some (prefer best e)) none

end Catalogue

end GrammarModule
