import GrammarModule.BindingSearch
import GrammarModule.Command.Options

/-!
# GrammarModule.Command.Request

What a command line asks for. The first word chooses what to do; options before it hold for all of
them. A search that is not told its root, or the version of the binary interface, takes them from
the environment, and nothing else looks there.
-/

namespace GrammarModule
namespace Command

/-- The settings of the environment that the program knows, if they are set. -/
structure Environment where
  moduleRoot : Option (List UInt8)
  nodeAbi : Option (List UInt8)
  deriving DecidableEq, Repr

namespace Environment

/-- The variable with the root of the package. -/
def rootVariable : String := "ABL_MODULE_ROOT"

/-- The variable with the version of the binary interface. -/
def abiVariable : String := "ABL_NODE_ABI"

end Environment

inductive Request where
  /-- Register the module with a host in memory, which may be an unusable one. -/
  | record (usable : Bool)
  /-- Show where the compiled binding is searched for. -/
  | locate (search : BindingSearch)
  /-- Summarize the metadata in a file. -/
  | kinds (path : Path) (namedOnly : Bool)
  deriving DecidableEq, Repr

/-- The words that choose what to do. -/
inductive Verb where
  | record
  | locate
  | nodeTypes
  | help
  deriving DecidableEq, Repr

def Verb.word : Verb → String
  | .record => "record"
  | .locate => "locate"
  | .nodeTypes => "node-types"
  | .help => "help"

def Verb.ofBytes? (bytes : List UInt8) : Option Verb :=
  [Verb.record, .locate, .nodeTypes, .help].find? fun verb =>
    Text.encode verb.word.toList == bytes

/-! ## Values -/

/-- The number that one or more decimal digits denote. -/
def naturalOfDigits? (digits : List Char) : Option Nat :=
  if digits.isEmpty || !digits.all Char.isDigit then none
  else some (digits.foldl (fun n d => 10 * n + (d.toNat - '0'.toNat)) 0)

/-- The number that decimal digits after an optional sign denote. -/
def integerOfText? : List Char → Option Int
  | '-' :: digits => (naturalOfDigits? digits).map fun n => -(n : Int)
  | '+' :: digits => (naturalOfDigits? digits).map Int.ofNat
  | digits => (naturalOfDigits? digits).map Int.ofNat

/-- A version of the binary interface: an integer of 32 bits. -/
def abiOfBytes? (bytes : List UInt8) : Option UInt32 := do
  let n ← integerOfText? (← Text.decode? bytes)
  if 0 ≤ n ∧ n < UInt32.size then some n.toNat.toUInt32 else none

/-- The values that an option may have. -/
def accepts : OptionName → List UInt8 → Bool
  | .root, value => !value.isEmpty
  | .abi, value => (abiOfBytes? value).isSome
  | .platform, value => (Text.decode? value).isSome
  | _, _ => true

/-! ## Grammars -/

def verboseForm : OptionForm := ⟨.verbose, "verbose", some 'v', false⟩

def helpForm : OptionForm := ⟨.help, "help", some 'h', false⟩

/-- Before the word. -/
def leadingGrammar : Grammar :=
  ⟨[verboseForm, helpForm, ⟨.version, "version", some 'V', false⟩], accepts, 0⟩

/-- After the word. -/
def Verb.grammar : Verb → Grammar
  | .record => ⟨[verboseForm, helpForm, ⟨.invalidHost, "invalid-host", none, false⟩], accepts, 0⟩
  | .locate => ⟨[verboseForm, helpForm, ⟨.root, "root", some 'r', true⟩,
      ⟨.abi, "abi", some 'a', true⟩, ⟨.platform, "platform", some 'p', true⟩], accepts, 0⟩
  | .nodeTypes => ⟨[verboseForm, helpForm, ⟨.named, "named", none, false⟩], accepts, 1⟩
  | .help => ⟨[], accepts, 0⟩

/-! ## Requests -/

/-- The value of an option, or else the setting of the environment, which has to be one that the
option accepts. -/
def optionOr (found : Arguments) (name : OptionName) (setting : Option (List UInt8)) :
    Except Stop (Option (List UInt8)) :=
  match found.value? name, setting with
  | some value, _ => .ok (some value)
  | none, none => .ok none
  | none, some value => if accepts name value then .ok (some value) else .error .usage

def locateRequest (env : Environment) (found : Arguments) : Except Stop Request := do
  let root ← optionOr found .root env.moduleRoot
  let abi ← optionOr found .abi env.nodeAbi
  let platform := (found.value? .platform).bind Text.decode?
  .ok (.locate { (default : BindingSearch) with
    root := (root.map Path.mk).getD (default : BindingSearch).root
    abi := abi.bind abiOfBytes?
    platform := (platform.map String.ofList).getD (default : BindingSearch).platform })

/-- The request after the word that chose it. -/
def Verb.request (env : Environment) (verb : Verb) (rest : List (List UInt8)) :
    Except Stop Request := do
  if verb = .help then
    match rest with
    | [] => .error .help
    | [topic] => .error (if (Verb.ofBytes? topic).isSome then .help else .usage)
    | _ => .error .usage
  else
    let (found, _) ← readArguments verb.grammar (fun _ => false) .empty none rest
    match verb, found.operands with
    | .record, _ => .ok (.record !(found.has .invalidHost))
    | .locate, _ => locateRequest env found
    | .nodeTypes, path :: _ => .ok (.kinds ⟨path⟩ (found.has .named))
    | _, _ => .error .usage

/-- The request that a command line makes, without the name of the program. -/
def Request.read (env : Environment) (arguments : List (List UInt8)) : Except Stop Request := do
  let (_, rest) ← readArguments leadingGrammar (fun word => (Verb.ofBytes? word).isSome) .empty
    none arguments
  match rest with
  | [] => .error .usage
  | word :: rest =>
    match Verb.ofBytes? word with
    | none => .error .usage
    | some verb => verb.request env rest

end Command
end GrammarModule
