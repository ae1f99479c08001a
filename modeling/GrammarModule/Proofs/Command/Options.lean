import GrammarModule.Command.Request
import GrammarModule.Proofs.Json.Past

/-!
# GrammarModule.Proofs.Command.Options

Reading a command line adds options and operands one at a time, so it keeps what each addition keeps
(`readArguments_kept`): no option has a value that its grammar does not accept
(`readArguments_accepted`). A word and what is read after it make the request (`verb_of_read`). What
a search is to look for comes from the options, then from the environment, then from the defaults
(`Effective`, `effective_of_locateRequest`).
-/

namespace GrammarModule
namespace Command

open Json (bind_eq_ok_iff)

variable {grammar : Grammar} {found found' : Arguments} {name : OptionName} {value : List UInt8}

/-- Every option has a value that the grammar accepts. -/
def Arguments.Accepted (grammar : Grammar) (found : Arguments) : Prop :=
  ∀ option ∈ found.options, grammar.accepts option.1 option.2 = true

namespace Arguments

theorem accepted_empty : empty.Accepted grammar := fun _ h => nomatch h

theorem Accepted.of_value? (h : found.Accepted grammar) (hv : found.value? name = some value) :
    grammar.accepts name value = true := by
  obtain ⟨before, after, hsplit, -⟩ := List.lookup_eq_some_iff.1 hv
  exact h (name, value) (by rw [hsplit]; simp)

theorem Accepted.addOption (h : found.Accepted grammar)
    (hadd : found.addOption grammar name value = .ok found') : found'.Accepted grammar := by
  rw [Arguments.addOption] at hadd
  split_ifs at hadd with hhelp hversion hbad
  cases hadd
  intro option hoption
  rcases List.mem_append.1 hoption with hoption | hoption
  · exact h option hoption
  · obtain rfl := List.mem_singleton.1 hoption
    simp only [Bool.or_eq_true, not_or, Bool.not_eq_true, Bool.not_eq_false'] at hbad
    exact hbad.2

theorem Accepted.addOperand (h : found.Accepted grammar)
    (hadd : found.addOperand grammar value = .ok found') : found'.Accepted grammar := by
  rw [Arguments.addOperand] at hadd
  split_ifs at hadd
  cases hadd
  exact h

end Arguments

/-- What holds of the arguments read so far is kept by adding an option or an operand. -/
structure Arguments.Kept (grammar : Grammar) (P : Arguments → Prop) : Prop where
  addOption {found found' : Arguments} {name : OptionName} {value : List UInt8} :
    P found → found.addOption grammar name value = .ok found' → P found'
  addOperand {found found' : Arguments} {operand : List UInt8} :
    P found → found.addOperand grammar operand = .ok found' → P found'

section

variable {P : Arguments → Prop}

theorem readLetters_kept {letters : List UInt8} {pending : Option OptionForm}
    (hkept : Arguments.Kept grammar P) (h : P found)
    (hread : readLetters grammar found letters = .ok (found', pending)) : P found' := by
  induction letters generalizing found with
  | nil =>
    cases hread
    exact h
  | cons letter rest ih =>
    rw [readLetters] at hread
    split at hread
    · cases hread
    · split_ifs at hread with htakes
      · split at hread
        · cases hread
          exact h
        · obtain ⟨next, hadd, hread⟩ := bind_eq_ok_iff.1 hread
          cases hread
          exact hkept.addOption h hadd
      · obtain ⟨next, hadd, hread⟩ := bind_eq_ok_iff.1 hread
        exact ih (hkept.addOption h hadd) hread

theorem readLong_kept {text : List UInt8} {value? : Option (List UInt8)}
    {pending : Option OptionForm} (hkept : Arguments.Kept grammar P) (h : P found)
    (hread : readLong grammar found text value? = .ok (found', pending)) : P found' := by
  unfold readLong at hread
  split at hread
  · cases hread
  · split_ifs at hread
    · obtain ⟨next, hadd, hread⟩ := bind_eq_ok_iff.1 hread
      cases hread
      exact hkept.addOption h hadd
  · split_ifs at hread
    · cases hread
      exact h
    · obtain ⟨next, hadd, hread⟩ := bind_eq_ok_iff.1 hread
      cases hread
      exact hkept.addOption h hadd

theorem readOperands_kept {operands : List (List UInt8)} (hkept : Arguments.Kept grammar P)
    (h : P found) (hread : readOperands grammar found operands = .ok found') : P found' := by
  induction operands generalizing found with
  | nil =>
    cases hread
    exact h
  | cons operand rest ih =>
    obtain ⟨next, hadd, hread⟩ := bind_eq_ok_iff.1 hread
    exact ih (hkept.addOperand h hadd) hread

theorem readArguments_kept {isWord : List UInt8 → Bool} {pending : Option OptionForm}
    {arguments rest : List (List UInt8)} (hkept : Arguments.Kept grammar P) (h : P found)
    (hread : readArguments grammar isWord found pending arguments = .ok (found', rest)) :
    P found' := by
  induction arguments generalizing found pending with
  | nil =>
    cases pending with
    | none =>
      cases hread
      exact h
    | some form => cases hread
  | cons argument arguments ih =>
    cases pending with
    | some form =>
      rw [readArguments] at hread
      split at hread
      · obtain ⟨next, hadd, hread⟩ := bind_eq_ok_iff.1 hread
        exact ih (hkept.addOption h hadd) hread
      · cases hread
    | none =>
      rw [readArguments] at hread
      split_ifs at hread with hword
      · cases hread
        exact h
      · split at hread
        · obtain ⟨next, hoperands, hread⟩ := bind_eq_ok_iff.1 hread
          cases hread
          exact readOperands_kept hkept h hoperands
        · obtain ⟨⟨next, pending⟩, hlong, hread⟩ := bind_eq_ok_iff.1 hread
          exact ih (readLong_kept hkept h hlong) hread
        · obtain ⟨⟨next, pending⟩, hletters, hread⟩ := bind_eq_ok_iff.1 hread
          exact ih (readLetters_kept hkept h hletters) hread
        · obtain ⟨next, hadd, hread⟩ := bind_eq_ok_iff.1 hread
          exact ih (hkept.addOperand h hadd) hread

end

/-- An argument is read before those that follow it, whatever they are, unless it is a word or a
separator. -/
theorem exists_first (grammar : Grammar) (isWord : List UInt8 → Bool) (found : Arguments)
    (pending : Option OptionForm) (argument : List UInt8) :
    (pending = none ∧ isWord argument = true) ∨
      (pending = none ∧ isWord argument = false ∧ Argument.ofBytes argument = .separator) ∨
      ∃ first : Except Stop (Arguments × Option OptionForm), ∀ rest,
        readArguments grammar isWord found pending (argument :: rest) =
          first >>= fun r => readArguments grammar isWord r.1 r.2 rest := by
  cases pending with
  | some form =>
    refine .inr (.inr ?_)
    cases hargument : Argument.ofBytes argument with
    | plain value =>
      refine ⟨found.addOption grammar form.name value >>= fun f => .ok (f, none), fun rest => ?_⟩
      rw [readArguments, hargument, bind_assoc]
      rfl
    | _ =>
      refine ⟨.error .usage, fun rest => ?_⟩
      rw [readArguments, hargument]
      rfl
  | none =>
    cases hword : isWord argument with
    | true => exact .inl ⟨rfl, rfl⟩
    | false =>
      have hnot : ¬isWord argument = true := by simp [hword]
      refine .inr ?_
      cases hargument : Argument.ofBytes argument with
      | separator => exact .inl ⟨rfl, rfl, rfl⟩
      | long name value? =>
        refine .inr ⟨readLong grammar found name value?, fun rest => ?_⟩
        rw [readArguments, if_neg hnot, hargument]
      | letters letters =>
        refine .inr ⟨readLetters grammar found letters, fun rest => ?_⟩
        rw [readArguments, if_neg hnot, hargument]
      | plain operand =>
        refine .inr ⟨found.addOperand grammar operand >>= fun f => .ok (f, none), fun rest => ?_⟩
        rw [readArguments, if_neg hnot, hargument, bind_assoc]
        rfl

theorem readArguments_accepted {isWord : List UInt8 → Bool} {pending : Option OptionForm}
    {arguments rest : List (List UInt8)} (h : found.Accepted grammar)
    (hread : readArguments grammar isWord found pending arguments = .ok (found', rest)) :
    found'.Accepted grammar :=
  readArguments_kept ⟨.addOption, .addOperand⟩ h hread

/-- Every operand that is read has at least one byte. -/
theorem readArguments_operand_ne_nil {isWord : List UInt8 → Bool} {pending : Option OptionForm}
    {arguments rest : List (List UInt8)}
    (hread : readArguments grammar isWord .empty pending arguments = .ok (found', rest)) :
    ∀ operand ∈ found'.operands, operand ≠ [] := by
  have hkept : Arguments.Kept grammar fun found => ∀ operand ∈ found.operands, operand ≠ [] := by
    constructor
    · intro found found' name value h hadd
      rw [Arguments.addOption] at hadd
      split_ifs at hadd
      cases hadd
      exact h
    · intro found found' operand h hadd
      rw [Arguments.addOperand] at hadd
      split_ifs at hadd with hbad
      cases hadd
      intro other hother
      rcases List.mem_append.1 hother with hother | hother
      · exact h other hother
      · obtain rfl := List.mem_singleton.1 hother
        rintro rfl
        exact hbad rfl
  exact readArguments_kept hkept (fun _ h => absurd h List.not_mem_nil) hread

/-! ## The search that is asked for -/

variable {env : Environment} {s : BindingSearch}

/-- The search follows the options, and the environment where an option is not given. -/
structure Effective (env : Environment) (found : Arguments) (s : BindingSearch) : Prop where
  root : match (found.value? .root).or env.moduleRoot with
    | none => s.root = .ofText "."
    | some bytes => s.root = ⟨bytes⟩ ∧ bytes ≠ []
  abi : match (found.value? .abi).or env.nodeAbi with
    | none => s.abi = none
    | some bytes => ∃ abi, abiOfBytes? bytes = some abi ∧ s.abi = some abi
  platform : match found.value? .platform with
    | none => s.platform = BindingSearch.ownPlatform
    | some bytes => ∃ text, Text.decode? bytes = some text ∧ s.platform = String.ofList text
  stem : s.stem = BindingSearch.usualStem

theorem optionOr_eq_ok {setting value? : Option (List UInt8)}
    (h : ∀ value, found.value? name = some value → accepts name value = true)
    (hor : optionOr found name setting = .ok value?) :
    value? = (found.value? name).or setting ∧ ∀ value ∈ value?, accepts name value = true := by
  unfold optionOr at hor
  split at hor
  · next value hvalue =>
    cases hor
    rw [hvalue]
    refine ⟨rfl, ?_⟩
    rintro _ ⟨⟩
    exact h value hvalue
  · next hvalue =>
    cases hor
    rw [hvalue]
    exact ⟨rfl, fun _ h => nomatch h⟩
  · next value hvalue =>
    split_ifs at hor with haccepts
    cases hor
    rw [hvalue]
    refine ⟨rfl, ?_⟩
    rintro _ ⟨⟩
    exact haccepts

theorem effective_of_locateRequest (h : found.Accepted Verb.locate.grammar)
    (hs : locateRequest env found = .ok (.locate s)) : Effective env found s := by
  obtain ⟨root, hroot, hs⟩ := bind_eq_ok_iff.1 hs
  obtain ⟨abi, habi, hs⟩ := bind_eq_ok_iff.1 hs
  obtain ⟨rfl, haccepts⟩ := optionOr_eq_ok (fun _ hv => h.of_value? hv) hroot
  obtain ⟨rfl, haccepts'⟩ := optionOr_eq_ok (fun _ hv => h.of_value? hv) habi
  cases hs
  constructor
  · cases hr : (found.value? .root).or env.moduleRoot with
    | none => rfl
    | some bytes =>
      refine ⟨rfl, ?_⟩
      have hb := haccepts bytes hr
      rintro rfl
      cases hb
  · cases ha : (found.value? .abi).or env.nodeAbi with
    | none => rfl
    | some bytes =>
      obtain ⟨value, hvalue⟩ := Option.isSome_iff_exists.1 (haccepts' bytes ha)
      exact ⟨value, hvalue, hvalue⟩
  · cases hp : found.value? .platform with
    | none => rfl
    | some bytes =>
      obtain ⟨text, htext⟩ := Option.isSome_iff_exists.1 (h.of_value? hp)
      refine ⟨text, htext, ?_⟩
      simp [htext]
  · rfl

/-- How the word and what is read after it make a request. -/
def Verb.Makes (env : Environment) (found : Arguments) (request : Request) : Verb → Prop
  | .record => request = .record !(found.has .invalidHost)
  | .locate => locateRequest env found = .ok request
  | .nodeTypes => ∃ path, found.operands.head? = some path ∧
      request = .kinds ⟨path⟩ (found.has .named)
  | .help => False

/-- A command line that makes a request: the word, and what is read after it. -/
theorem verb_of_read {arguments : List (List UInt8)} {request : Request}
    (h : Request.read env arguments = .ok request) :
    ∃ leading rest found more, ∃ verb : Verb,
      readArguments leadingGrammar (fun word => (Verb.ofBytes? word).isSome) .empty none arguments =
        .ok (leading, Text.encode verb.word.toList :: rest) ∧
      readArguments verb.grammar (fun _ => false) .empty none rest = .ok (found, more) ∧
      verb.Makes env found request := by
  obtain ⟨⟨leading, rest⟩, hleading, h⟩ := bind_eq_ok_iff.1 h
  match rest with
  | [] => cases h
  | word :: rest =>
    simp only at h
    cases hverb : Verb.ofBytes? word with
    | none =>
      rw [hverb] at h
      cases h
    | some verb =>
      rw [hverb] at h
      have hword : Text.encode verb.word.toList = word := by
        simpa using List.find?_some hverb
      simp only [Verb.request] at h
      split_ifs at h with hhelp
      · split at h
        · cases h
        · cases h
        · cases h
      · obtain ⟨⟨found, more⟩, hfound, h⟩ := bind_eq_ok_iff.1 h
        refine ⟨leading, rest, found, more, verb, hword ▸ hleading, hfound, ?_⟩
        cases verb with
        | record =>
          cases h
          rfl
        | locate => exact h
        | nodeTypes =>
          cases hoperands : found.operands with
          | nil =>
            rw [hoperands] at h
            cases h
          | cons path operands =>
            rw [hoperands] at h
            cases h
            exact ⟨path, by rw [hoperands]; rfl, rfl⟩
        | help => exact absurd rfl hhelp

/-- A command line that asks for a search: the word, and what is read after it. -/
theorem locate_of_read {arguments : List (List UInt8)}
    (h : Request.read env arguments = .ok (.locate s)) :
    ∃ leading rest found more,
      readArguments leadingGrammar (fun word => (Verb.ofBytes? word).isSome) .empty none arguments =
        .ok (leading, Text.encode Verb.locate.word.toList :: rest) ∧
      readArguments Verb.locate.grammar (fun _ => false) .empty none rest = .ok (found, more) ∧
      Effective env found s := by
  obtain ⟨leading, rest, found, more, verb, hleading, hfound, hmakes⟩ := verb_of_read h
  cases verb with
  | record => cases hmakes
  | locate =>
    have haccepted := readArguments_accepted Arguments.accepted_empty hfound
    exact ⟨leading, rest, found, more, hleading, hfound,
      effective_of_locateRequest haccepted hmakes⟩
  | nodeTypes =>
    obtain ⟨path, -, hpath⟩ := hmakes
    cases hpath
  | help => exact hmakes.elim

end Command
end GrammarModule
