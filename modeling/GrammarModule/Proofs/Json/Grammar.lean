import GrammarModule.Json.Table
import Mathlib.Data.List.Forall2

/-!
# GrammarModule.Proofs.Json.Grammar

The notation as relations between values and texts, written without the readers.

* `Items` is the punctuation of lists and objects: separators, blanks and the closing character.
* `TextLiteral` relates a text to each of its spellings, `IsString` is the form alone.
* `IsValue` is any value at all, of any depth and with numbers of any size.
* `RecordText` relates a record to the objects and the lists that spell it.
-/

namespace GrammarModule
namespace Json

/-! ## Punctuation -/

/-- Only blanks. -/
def Blanks (t : List Char) : Prop := ∀ x ∈ t, x ∈ [' ', '\n', '\t', '\r']

/-- What stands before an item of a list or an object: blanks, with a comma among them unless the
item is the first. -/
inductive Lead : Bool → List Char → Prop
  | first {b : List Char} (hb : Blanks b) : Lead true b
  | comma {b b' : List Char} (hb : Blanks b) (hb' : Blanks b') : Lead false (b ++ ',' :: b')

/-- What follows the opening character of a list or an object, or one of its items: the texts of
the further items and the closing character. -/
inductive Items (close : Char) : Bool → List (List Char) → List Char → Prop
  | close {first : Bool} {b : List Char} (hb : Blanks b) : Items close first [] (b ++ [close])
  | item {first : Bool} {s t r : List Char} {ts : List (List Char)} (hs : Lead first s)
      (hr : Items close false ts r) : Items close first (t :: ts) (s ++ (t ++ r))

/-- A list whose items have the given texts. -/
def IsList (items : List (List Char)) (t : List Char) : Prop :=
  ∃ r, t = '[' :: r ∧ Items ']' true items r

/-- A key and a value with a colon between them. -/
def IsMember (key value t : List Char) : Prop :=
  ∃ b b', Blanks b ∧ Blanks b' ∧ t = key ++ (b ++ ':' :: (b' ++ value))

/-- An object whose members have the given texts. -/
def IsObject (members : List (List Char)) (t : List Char) : Prop :=
  ∃ r, t = '\x7b' :: r ∧ Items '\x7d' true members r

/-! ## Strings -/

/-- A hexadecimal digit of either case and its value. -/
def HexDigit (c : Char) (n : Nat) : Prop :=
  n < 16 ∧ (c = Nat.digitChar n ∨ c = (Nat.digitChar n).toUpper)

/-- Four hexadecimal digits and the sixteen bits that they denote. -/
inductive HexUnit : List Char → Nat → Prop
  | mk {a b c d : Char} {i j k l : Nat} (ha : HexDigit a i) (hb : HexDigit b j)
      (hc : HexDigit c k) (hd : HexDigit d l) :
      HexUnit [a, b, c, d] (((i * 16 + j) * 16 + k) * 16 + l)

/-- The characters that may follow a backslash, apart from `u`, and what they stand for. -/
def shortEscapes : List (Char × Char) :=
  [('"', '"'), ('\\', '\\'), ('/', '/'), ('b', '\x08'), ('f', '\x0c'), ('n', '\n'), ('r', '\r'),
    ('t', '\t')]

/-- May stand for itself inside a string literal. -/
def IsPlain (c : Char) : Prop := c ≠ '"' ∧ c ≠ '\\' ∧ ' ' ≤ c

/-- One character and a text for it inside a string literal. A character beyond sixteen bits may
be written as two surrogates; a surrogate alone is no character. -/
inductive CharText : Char → List Char → Prop
  | plain {c : Char} (h : IsPlain c) : CharText c [c]
  | short {e c : Char} (h : (e, c) ∈ shortEscapes) : CharText c ['\\', e]
  | unit {c : Char} {t : List Char} (h : HexUnit t c.toNat) : CharText c ('\\' :: 'u' :: t)
  | pair {c : Char} {s t : List Char} {high low : Nat} (hs : HexUnit s high) (ht : HexUnit t low)
      (hhigh : 0xd800 ≤ high ∧ high ≤ 0xdbff) (hlow : 0xdc00 ≤ low ∧ low ≤ 0xdfff)
      (hc : c.toNat = 0x10000 + (high - 0xd800) * 0x400 + (low - 0xdc00)) :
      CharText c ('\\' :: 'u' :: s ++ '\\' :: 'u' :: t)

/-- Characters and a text for them, one after the other. -/
inductive CharsText : List Char → List Char → Prop
  | nil : CharsText [] []
  | cons {c : Char} {cs t r : List Char} (hc : CharText c t) (hr : CharsText cs r) :
      CharsText (c :: cs) (t ++ r)

/-- A string literal for a text. -/
def TextLiteral (s : String) (t : List Char) : Prop :=
  ∃ r, CharsText s.toList r ∧ t = '"' :: (r ++ ['"'])

/-- What may follow a backslash when nobody asks what it denotes: surrogates are as good as other
units. -/
inductive EscapeForm : List Char → Prop
  | short {e c : Char} (h : (e, c) ∈ shortEscapes) : EscapeForm [e]
  | unit {t : List Char} {n : Nat} (h : HexUnit t n) : EscapeForm ('u' :: t)

/-- What may stand inside a string literal when nobody asks what it denotes. -/
inductive StringBody : List Char → Prop
  | nil : StringBody []
  | plain {c : Char} {t : List Char} (hc : IsPlain c) (h : StringBody t) : StringBody (c :: t)
  | escape {s t : List Char} (hs : EscapeForm s) (h : StringBody t) : StringBody ('\\' :: (s ++ t))

/-- A string literal by its form. -/
def IsString (t : List Char) : Prop := ∃ r, StringBody r ∧ t = '"' :: (r ++ ['"'])

/-! ## Numbers and values -/

/-- At least one digit, and only digits. -/
def Digits (t : List Char) : Prop := t ≠ [] ∧ ∀ c ∈ t, '0' ≤ c ∧ c ≤ '9'

/-- No fraction, or a point and digits. -/
def IsFraction (t : List Char) : Prop := t = [] ∨ ∃ ds, Digits ds ∧ t = '.' :: ds

/-- No exponent, or a mark, a sign or none, and digits. -/
def IsExponent (t : List Char) : Prop :=
  t = [] ∨ ∃ mark sign ds, mark ∈ ['e', 'E'] ∧ sign ∈ [[], ['+'], ['-']] ∧ Digits ds ∧
    t = mark :: (sign ++ ds)

/-- A number without its sign: no zero leads other digits. -/
def IsUnsigned (t : List Char) : Prop :=
  ∃ whole fraction exponent, Digits whole ∧ (whole.head? = some '0' → whole = ['0']) ∧
    IsFraction fraction ∧ IsExponent exponent ∧ t = whole ++ (fraction ++ exponent)

/-- The three words. -/
def words : List (List Char) :=
  [['n', 'u', 'l', 'l'], ['t', 'r', 'u', 'e'], ['f', 'a', 'l', 's', 'e']]

/-- A value of any shape and depth, by its form alone. -/
inductive IsValue : List Char → Prop
  | word {t : List Char} (h : t ∈ words) : IsValue t
  | text {t : List Char} (h : IsString t) : IsValue t
  | unsigned {t : List Char} (h : IsUnsigned t) : IsValue t
  | negative {t : List Char} (h : IsUnsigned t) : IsValue ('-' :: t)
  | list {items : List (List Char)} {t : List Char} (h : IsList items t)
      (hi : ∀ u ∈ items, IsValue u) : IsValue t
  | object {members : List (List Char × List Char)} {texts : List (List Char)} {t : List Char}
      (h : IsObject texts t) (hm : List.Forall₂ (fun m u => IsMember m.1 m.2 u) members texts)
      (hk : ∀ m ∈ members, IsString m.1) (hv : ∀ m ∈ members, IsValue m.2) : IsValue t

/-! ## Typed values -/

def FlagText (value : Bool) (t : List Char) : Prop :=
  t = if value then ['t', 'r', 'u', 'e'] else ['f', 'a', 'l', 's', 'e']

variable {α ρ : Type}

/-- A list of texts that spell the values in order. -/
def ListText (R : α → List Char → Prop) (values : List α) (t : List Char) : Prop :=
  ∃ texts, List.Forall₂ R values texts ∧ IsList texts t

/-- The word `null` for the absent value. -/
inductive OptionalText (R : α → List Char → Prop) : Option α → List Char → Prop
  | null : OptionalText R none ['n', 'u', 'l', 'l']
  | value {v : α} {t : List Char} (h : R v t) : OptionalText R (some v) t

/-- The text of a member whose key spells `m.1` and whose value has the text `m.2`. -/
def MemberText (m : String × List Char) (t : List Char) : Prop :=
  ∃ key, TextLiteral m.1 key ∧ IsMember key m.2 t

/-- An object with the given keys and texts of values, in written order. -/
def ObjectText (members : List (String × List Char)) (t : List Char) : Prop :=
  ∃ texts, List.Forall₂ MemberText members texts ∧ IsObject texts t

/-- The value that stands last under a key. -/
def lastUnder (key : String) (members : List (String × α)) : Option α :=
  ((members.filter fun m => m.1 == key).getLast?).map (·.2)

/-- An object, all of whose values have to be spelled rightly; a repeated key keeps its last
value. -/
def TableText (R : α → List Char → Prop) (table : Table α) (t : List Char) : Prop :=
  ∃ (members : List (String × List Char)) (values : List (String × α)),
    ObjectText members t ∧
    List.Forall₂ (fun v m => v.1 = m.1 ∧ R v.2 m.2) values members ∧
    ∀ key, table.get? key = lastUnder key values

/-! ## Records -/

/-- A field of a record, with the key and the texts of its values. -/
structure Field (ρ : Type) where
  key : String
  required : Bool
  Val : Type
  get : ρ → Val
  set : ρ → Val → ρ
  Text : Val → List Char → Prop

namespace Field

/-- What the texts under the key of a field have to be: one that spells its value in the record,
or none where the field is optional and has its default. -/
inductive Stated (f : Field ρ) (blank r : ρ) : List (List Char) → Prop
  | once {t : List Char} (h : f.Text (f.get r) t) : Stated f blank r [t]
  | absent (hf : f.required = false) (h : f.get r = f.get blank) : Stated f blank r []

/-- The texts of the leading fields in declared order; those left out have their defaults. -/
inductive Listed (blank r : ρ) : List (Field ρ) → List (List Char) → Prop
  | rest {fs : List (Field ρ)} (h : ∀ f ∈ fs, f.required = false ∧ f.get r = f.get blank) :
      Listed blank r fs []
  | cons {f : Field ρ} {fs : List (Field ρ)} {t : List Char} {ts : List (List Char)}
      (h : f.Text (f.get r) t) (hs : Listed blank r fs ts) : Listed blank r (f :: fs) (t :: ts)

end Field

/-- The texts under a key. -/
def textsUnder (key : String) (members : List (String × List Char)) : List (List Char) :=
  (members.filter fun m => m.1 == key).map (·.2)

/-- A record as an object: members in any order, each field at most once and the required ones
once, and any values under other keys. -/
def RecordObject (fields : List (Field ρ)) (blank r : ρ) (t : List Char) : Prop :=
  ∃ members, ObjectText members t ∧ (∀ f ∈ fields, f.Stated blank r (textsUnder f.key members)) ∧
    ∀ m ∈ members, (∀ f ∈ fields, f.key ≠ m.1) → IsValue m.2

/-- A record as a list of its fields in declared order. -/
def RecordList (fields : List (Field ρ)) (blank r : ρ) (t : List Char) : Prop :=
  ∃ texts, IsList texts t ∧ Field.Listed blank r fields texts

def RecordText (fields : List (Field ρ)) (blank r : ρ) (t : List Char) : Prop :=
  RecordObject fields blank r t ∨ RecordList fields blank r t

/-- A whole text: blanks may stand around the value. -/
def Document (R : α → List Char → Prop) (v : α) (source : String) : Prop :=
  ∃ b t b', Blanks b ∧ R v t ∧ Blanks b' ∧ source.toList = b ++ (t ++ b')

end Json
end GrammarModule
