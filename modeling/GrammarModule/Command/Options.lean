import GrammarModule.Path

/-!
# GrammarModule.Command.Options

Options and operands on a command line, whose arguments may be any bytes. An option has a long
name after two dashes and may have a letter after one; letters may be put together, the last of
them with a value. A value follows an equals sign, the letter itself, or as the next argument,
which then must not begin with a dash unless it is a single one. No option may be repeated, and
after two bare dashes there are only operands.
-/

namespace GrammarModule
namespace Command

inductive OptionName where
  | verbose
  | invalidHost
  | named
  | root
  | abi
  | platform
  | help
  | version
  deriving DecidableEq, Repr

/-- How an option is written. -/
structure OptionForm where
  name : OptionName
  long : String
  short : Option Char
  takesValue : Bool
  deriving DecidableEq, Repr

/-- Why no request comes of a command line: it is ill formed, or it asks about the program. -/
inductive Stop where
  | usage
  | help
  | version
  deriving DecidableEq, Repr

/-- What has been read of a command line. -/
structure Arguments where
  options : List (OptionName × List UInt8)
  operands : List (List UInt8)
  deriving DecidableEq, Repr

/-- What a part of a command line may hold: the options, which values they accept, and how many
operands. -/
structure Grammar where
  forms : List OptionForm
  accepts : OptionName → List UInt8 → Bool
  operandLimit : Nat

namespace Arguments

def empty : Arguments := ⟨[], []⟩

def value? (found : Arguments) (name : OptionName) : Option (List UInt8) :=
  found.options.lookup name

def has (found : Arguments) (name : OptionName) : Bool := (found.value? name).isSome

/-- Adds an option, unless it asks about the program, is there already, or has a value that is
not accepted. -/
def addOption (grammar : Grammar) (found : Arguments) (name : OptionName) (value : List UInt8) :
    Except Stop Arguments :=
  if name = .help then .error .help
  else if name = .version then .error .version
  else if found.has name || !grammar.accepts name value then .error .usage
  else .ok { found with options := found.options ++ [(name, value)] }

/-- Adds an operand, which must not be empty, if there may be one more. -/
def addOperand (grammar : Grammar) (found : Arguments) (operand : List UInt8) :
    Except Stop Arguments :=
  if operand.isEmpty || grammar.operandLimit ≤ found.operands.length then .error .usage
  else .ok { found with operands := found.operands ++ [operand] }

end Arguments

def dash : UInt8 := 0x2d

def equalsSign : UInt8 := 0x3d

/-- What an argument looks like, before the options are known. -/
inductive Argument where
  | separator
  | long (name : List UInt8) (value? : Option (List UInt8))
  | letters (letters : List UInt8)
  | plain (bytes : List UInt8)
  deriving DecidableEq, Repr

/-- Splits at the first equals sign. -/
def splitValue (bytes : List UInt8) : List UInt8 × Option (List UInt8) :=
  (bytes.takeWhile (· != equalsSign),
    match bytes.dropWhile (· != equalsSign) with
    | [] => none
    | _ :: value => some value)

def Argument.ofBytes (bytes : List UInt8) : Argument :=
  match bytes with
  | a :: b :: rest =>
    if a ≠ dash then .plain bytes
    else if b ≠ dash then .letters (b :: rest)
    else if rest.isEmpty then .separator
    else
      let (name, value?) := splitValue rest
      .long name value?
  | _ => .plain bytes

def Grammar.long? (grammar : Grammar) (name : List UInt8) : Option OptionForm :=
  grammar.forms.find? fun form => Text.encode form.long.toList == name

def Grammar.letter? (grammar : Grammar) (letter : UInt8) : Option OptionForm :=
  grammar.forms.find? fun form => (form.short.map fun c => Text.encode [c]) == some [letter]

/-- Reads letters put together. An option at their end that still needs its value is handed on. -/
def readLetters (grammar : Grammar) (found : Arguments) :
    List UInt8 → Except Stop (Arguments × Option OptionForm)
  | [] => .ok (found, none)
  | letter :: rest =>
    match grammar.letter? letter with
    | none => .error .usage
    | some form =>
      if form.takesValue then
        match rest with
        | [] => .ok (found, some form)
        | next :: value => do
          let value := if next = equalsSign then value else next :: value
          .ok (← found.addOption grammar form.name value, none)
      else do readLetters grammar (← found.addOption grammar form.name []) rest

/-- Reads a long option. One that still needs its value is handed on. -/
def readLong (grammar : Grammar) (found : Arguments) (name : List UInt8)
    (value? : Option (List UInt8)) : Except Stop (Arguments × Option OptionForm) :=
  match grammar.long? name, value? with
  | none, _ => .error .usage
  | some form, some value =>
    if form.takesValue then do .ok (← found.addOption grammar form.name value, none)
    else .error .usage
  | some form, none =>
    if form.takesValue then .ok (found, some form)
    else do .ok (← found.addOption grammar form.name [], none)

/-- Adds all that is left as operands. -/
def readOperands (grammar : Grammar) (found : Arguments) :
    List (List UInt8) → Except Stop Arguments
  | [] => .ok found
  | operand :: rest => do readOperands grammar (← found.addOperand grammar operand) rest

/-- Reads a command line up to the first argument that is a word of its own, if there is one; that
word and the arguments after it are handed on. `pending` is an option that needs a value. -/
def readArguments (grammar : Grammar) (isWord : List UInt8 → Bool) :
    Arguments → Option OptionForm → List (List UInt8) →
    Except Stop (Arguments × List (List UInt8))
  | found, none, [] => .ok (found, [])
  | _, some _, [] => .error .usage
  | found, some form, argument :: rest =>
    match Argument.ofBytes argument with
    | .plain value => do
      readArguments grammar isWord (← found.addOption grammar form.name value) none rest
    | _ => .error .usage
  | found, none, argument :: rest =>
    if isWord argument then .ok (found, argument :: rest)
    else
      match Argument.ofBytes argument with
      | .separator => do .ok (← readOperands grammar found rest, [])
      | .long name value? => do
        let (found, pending) ← readLong grammar found name value?
        readArguments grammar isWord found pending rest
      | .letters letters => do
        let (found, pending) ← readLetters grammar found letters
        readArguments grammar isWord found pending rest
      | .plain operand => do
        readArguments grammar isWord (← found.addOperand grammar operand) none rest

end Command
end GrammarModule
