import Mathlib.Tactic.TFAE
import GrammarModule.Proofs.Command.Environment
import GrammarModule.Proofs.Command.Numeral
import GrammarModule.Proofs.Command.Revalue

/-!
# GrammarModule.Proofs.Command.Version

The text of a version of the binary interface, as the value of the option or of the setting that
stands in for it. A text that is no decimal numeral of an unsigned 32-bit integer is refused; any
other is looked up under the digits of its number, however it was written
(`version_found_by_number`).
-/

namespace GrammarModule

open Text (Numeral)

namespace Command

open Json (bind_eq_ok_iff)

variable {env : Environment} {found : Arguments} {search : BindingSearch}
  {arguments before after : List (List UInt8)} {value : List UInt8} {n : Nat}

/-! ## Where a version is told -/

/-- An argument that gives the option its value. -/
def versionArgument (value : List UInt8) : List UInt8 := Text.encode "--abi=".toList ++ value

/-- An invocation with a place for the text of the version. -/
inductive VersionPlace where
  /-- The option stands between other arguments. -/
  | option (env : Environment) (before after : List (List UInt8))
  /-- The arguments leave the option out, and the setting stands in for it. -/
  | setting (moduleRoot : Option (List UInt8)) (arguments : List (List UInt8))

namespace VersionPlace

/-- The environment and the arguments with a text in the place. -/
def fill : VersionPlace → List UInt8 → Environment × List (List UInt8)
  | .option env before after, value => (env, before ++ versionArgument value :: after)
  | .setting moduleRoot arguments, value => (⟨moduleRoot, some value⟩, arguments)

def read (place : VersionPlace) (value : List UInt8) : Except Stop Request :=
  Request.read (place.fill value).1 (place.fill value).2

def run (place : VersionPlace) (files : Files) (value : List UInt8) : Report :=
  Command.run files (place.fill value).1 (place.fill value).2

/-- Apart from the text in the place, the invocation is one of a search: some text makes it one, or
it is one without the setting, for no version then. -/
def Accepted : VersionPlace → Prop
  | .option env before after => ∃ value search,
      Request.read env (before ++ versionArgument value :: after) = .ok (.locate search)
  | .setting moduleRoot arguments => ∃ search,
      Request.read ⟨moduleRoot, none⟩ arguments = .ok (.locate search) ∧ search.abi = none

theorem run_of_ok {place : VersionPlace} {request : Request} (h : place.read value = .ok request)
    (files : Files) : place.run files value = .ofRequest files request := by
  rw [read] at h
  rw [run, Command.run, h]

theorem run_of_error {place : VersionPlace} {stop : Stop} (h : place.read value = .error stop)
    (files : Files) : place.run files value = .ofStop stop := by
  rw [read] at h
  rw [run, Command.run, h]

end VersionPlace

/-- What a search becomes with the text of a version, or else its refusal. -/
def searchFor (search : BindingSearch) (value : List UInt8) : Except Stop Request :=
  match abiOfBytes? value with
  | some abi => .ok (.locate { search with abi := some abi })
  | none => .error .usage

theorem argument_versionArgument (value : List UInt8) :
    Argument.ofBytes (versionArgument value) = .long (Text.encode "abi".toList) (some value) := rfl

theorem locateRequest_setting {moduleRoot : Option (List UInt8)} (hnone : found.has .abi = false)
    (h : locateRequest ⟨moduleRoot, none⟩ found = .ok (.locate search)) (value : List UInt8) :
    locateRequest ⟨moduleRoot, some value⟩ found = searchFor search value := by
  obtain ⟨root, hroot, h⟩ := bind_eq_ok_iff.1 h
  obtain ⟨abi, -, h⟩ := bind_eq_ok_iff.1 h
  cases h
  have hsetting : optionOr found .abi (some value) =
      if (abiOfBytes? value).isSome then .ok (some value) else .error .usage :=
    optionOr_of_not_has hnone (some value)
  rw [searchFor]
  cases habi : abiOfBytes? value with
  | none =>
    rw [habi] at hsetting
    simp only [locateRequest, hroot, hsetting]
    rfl
  | some abi =>
    rw [habi] at hsetting
    simp only [locateRequest, hroot, hsetting, Option.isSome_some, if_true, bind, Except.bind,
      Option.bind_some, habi]

theorem locateRequest_revalue (hgiven : found.has .abi = true)
    (h : locateRequest env found = .ok (.locate search)) {abi : UInt32}
    (habi : abiOfBytes? value = some abi) :
    locateRequest env (found.revalue .abi value) =
      .ok (.locate { search with abi := some abi }) := by
  obtain ⟨root, hroot, h⟩ := bind_eq_ok_iff.1 h
  obtain ⟨_, -, h⟩ := bind_eq_ok_iff.1 h
  cases h
  obtain ⟨given, hvalue⟩ := Option.isSome_iff_exists.1 hgiven
  have hother : ∀ {name : OptionName}, name ≠ .abi →
      (found.revalue .abi value).value? name = found.value? name := fun hname => by
    rw [Arguments.value?_revalue, if_neg hname]
  have hroot' : optionOr (found.revalue .abi value) .root env.moduleRoot = .ok root := by
    rw [← hroot]
    simp only [optionOr, hother (show OptionName.root ≠ .abi by decide)]
  have habi' : optionOr (found.revalue .abi value) .abi env.nodeAbi = .ok (some value) := by
    simp only [optionOr, Arguments.value?_revalue, if_true, hvalue, Option.map_some]
  simp only [locateRequest, hroot', habi', bind, Except.bind,
    hother (show OptionName.platform ≠ .abi by decide), Option.bind_some, habi]

/-! ## Reading the text of a version -/

theorem read_setting {moduleRoot : Option (List UInt8)}
    (h : Request.read ⟨moduleRoot, none⟩ arguments = .ok (.locate search))
    (hnone : search.abi = none) (value : List UInt8) :
    Request.read ⟨moduleRoot, some value⟩ arguments = searchFor search value := by
  obtain ⟨before, rest, rfl, hsearches⟩ := searches_of_read h
  obtain ⟨found, more, hfound, heffective⟩ := hsearches.effective h
  have habsent : found.has .abi = false := by
    cases hvalue : found.value? .abi with
    | none => rw [Arguments.has, hvalue]; rfl
    | some given =>
      have habi := heffective.abi
      rw [hvalue] at habi
      obtain ⟨abi, -, habi⟩ := habi
      rw [hnone] at habi
      cases habi
  rw [hsearches.read, hfound] at h ⊢
  exact locateRequest_setting habsent h value

/-- The option is read after the word. -/
theorem exists_searches_option
    (h : Request.read env (before ++ versionArgument value :: after) = .ok (.locate search)) :
    ∃ leading trailing, before = leading ++ locateWord :: trailing ∧
      Searches leading (trailing ++ versionArgument value :: after) := by
  obtain ⟨leading, rest, hsplit, hsearches⟩ := searches_of_read h
  obtain ⟨found, hleading⟩ := hsearches
  have hread := hleading
  rw [← hsplit] at hread
  rcases exists_before_option rfl (argument_versionArgument value) hread with
    ⟨word, trailing, -, hrest⟩ | ⟨found', hbefore⟩
  · obtain ⟨-, rfl⟩ := List.cons.inj hrest
    have hbefore : before ++ versionArgument value :: after =
        (leading ++ locateWord :: trailing) ++ versionArgument value :: after := by
      rw [hsplit, List.append_assoc, List.cons_append]
    exact ⟨leading, trailing, List.append_cancel_right hbefore, found, hleading⟩
  · -- before the word there is no such option
    rw [hbefore] at hread
    cases hread

/-- The option with a value and what comes after it, after the word and other options. -/
def readFrom (earlier : Arguments) (value : List UInt8) (after : List (List UInt8)) :
    Except Stop (Arguments × List (List UInt8)) := do
  readArguments Verb.locate.grammar (fun _ => false)
    (← earlier.addOption Verb.locate.grammar .abi value) none after

theorem readArguments_versionArgument (found : Arguments) (value : List UInt8)
    (after : List (List UInt8)) : readArguments Verb.locate.grammar (fun _ => false) found none
      (versionArgument value :: after) = readFrom found value after := by
  rw [readArguments, argument_versionArgument]
  exact bind_assoc _ _ _

theorem addOption_abi (found : Arguments) (value : List UInt8) :
    found.addOption Verb.locate.grammar .abi value =
      if found.has .abi || !(abiOfBytes? value).isSome then .error .usage
      else .ok { found with options := found.options ++ [(.abi, value)] } := rfl

/-- What comes after the option is read alike with any value that the option accepts. -/
theorem readFrom_eq {earlier : Arguments} {given : List UInt8} {more : List (List UInt8)}
    (h : readFrom earlier given after = .ok (found, more)) (value : List UInt8) :
    found.has .abi = true ∧ readFrom earlier value after =
      if (abiOfBytes? value).isSome then .ok (found.revalue .abi value, more)
      else .error .usage := by
  obtain ⟨next, hadd, h⟩ := bind_eq_ok_iff.1 h
  rw [addOption_abi] at hadd
  split_ifs at hadd with hbad
  cases hadd
  simp only [Bool.or_eq_true, not_or, Bool.not_eq_true] at hbad
  have hgiven : Arguments.has { earlier with options := earlier.options ++ [(.abi, given)] } .abi =
      true := by simp [Arguments.has, Arguments.value?, List.lookup_append]
  refine ⟨readArguments_kept (Arguments.kept_has _ .abi) hgiven h, ?_⟩
  rw [readFrom, addOption_abi, hbad.1, Bool.false_or]
  cases (abiOfBytes? value).isSome with
  | false => rfl
  | true =>
    have hafter := readArguments_commutes
      (Arguments.commutes_revalue Verb.locate.grammar .abi value) hgiven (fun _ => false) none after
    rw [Arguments.revalue_concat hbad.1, h] at hafter
    exact hafter

theorem read_option {given : List UInt8}
    (h : Request.read env (before ++ versionArgument given :: after) = .ok (.locate search))
    (value : List UInt8) :
    Request.read env (before ++ versionArgument value :: after) = searchFor search value := by
  obtain ⟨leading, trailing, rfl, hsearches⟩ := exists_searches_option h
  rw [List.append_assoc, List.cons_append, hsearches.read] at h ⊢
  obtain ⟨⟨found, more⟩, hfound, h⟩ := bind_eq_ok_iff.1 h
  rcases exists_before_option rfl (argument_versionArgument given) hfound with
    ⟨_, _, hword, -⟩ | ⟨earlier, hearlier⟩
  · -- there is no further word
    cases hword
  have hread : ∀ text, readSearch (trailing ++ versionArgument text :: after) =
      readFrom earlier text after := fun text => by
    rw [readSearch, hearlier, readArguments_versionArgument]
  rw [hread] at hfound ⊢
  obtain ⟨hgiven, hvalue⟩ := readFrom_eq hfound value
  rw [hvalue, searchFor]
  cases habi : abiOfBytes? value with
  | none => rfl
  | some abi => exact locateRequest_revalue hgiven h habi

theorem VersionPlace.exists_search {place : VersionPlace} (h : place.Accepted) :
    ∃ base : BindingSearch, base.stem = BindingSearch.usualStem ∧
      ∀ value, place.read value = searchFor base value := by
  cases place with
  | option env before after =>
    obtain ⟨given, search, h⟩ := h
    obtain ⟨_, _, _, _, -, -, heffective⟩ := locate_of_read h
    exact ⟨search, heffective.stem, read_option h⟩
  | setting moduleRoot arguments =>
    obtain ⟨search, h, hnone⟩ := h
    obtain ⟨_, _, _, _, -, -, heffective⟩ := locate_of_read h
    exact ⟨search, heffective.stem, read_setting h hnone⟩

/-! ## The file name of a prebuilt binary -/

section

open BindingSearch GrammarModule.Path

variable {s : BindingSearch}

/-- The last component of the path is the file name, whatever the platform is called. -/
theorem getLast?_components_prebuilt (hs : s.stem = usualStem) (abi : UInt32) :
    (s.prebuilt abi).components.getLast? =
      some (.name (Text.encode (prebuiltName s.stem abi).toList)) := by
  have hrelative : Relative s.stem := by
    rw [hs]
    decide
  have hslash : slash ∉ (ofText (prebuiltName s.stem abi)).bytes := by
    refine mt slash_mem_encode_iff.1 ?_
    rw [prebuiltName_eq, String.toList_append, List.mem_append, hs, not_or]
    exact ⟨by decide, slash_not_mem_prebuiltEnding abi⟩
  have hlong : 2 < (ofText (prebuiltName s.stem abi)).bytes.length := by
    have := length_prebuiltEnding abi
    rw [prebuiltName_eq, bytes_ofText_append, List.length_append]
    omega
  have hsteps : (ofText (prebuiltName s.stem abi)).steps =
      [.name (Text.encode (prebuiltName s.stem abi).toList)] := by
    rw [steps, segments, segmentsOf_of_not_mem hslash,
      List.filterMap_cons_some (step?_of_length hlong), List.filterMap_nil]
    rfl
  have hlast : (s.prebuilt abi).steps.getLast? =
      some (.name (Text.encode (prebuiltName s.stem abi).toList)) := by
    rw [prebuilt_eq]
    refine getLast?_steps_join (hrelative.prebuiltName abi).isAbsolute_eq ?_
    rw [hsteps]
    rfl
  rw [components_eq, List.getLast?_append, hlast, Option.some_or]

/-- The digits of the version stand between the last dash and the ending. -/
theorem toList_prebuiltName (abi : UInt32) : (prebuiltName usualStem abi).toList =
    "tree_sitter_abl_binding".toList ++ '-' :: Nat.toDigits 10 abi.toNat ++ ".node".toList := by
  rw [prebuiltName_eq, String.toList_append, toList_prebuiltEnding, Nat.toList_repr, usualStem,
    List.append_assoc, List.cons_append]

/-- So prebuilt binaries whose paths are alike are of one version. -/
theorem eq_of_prebuilt_alike {t : BindingSearch} {abi abi' : UInt32} (hs : s.stem = usualStem)
    (ht : t.stem = usualStem) (h : (s.prebuilt abi).Alike (t.prebuilt abi')) : abi = abi' := by
  have hlast := congrArg List.getLast? (show _ = _ from h)
  rw [getLast?_components_prebuilt hs, getLast?_components_prebuilt ht, hs, ht, Option.some.injEq,
    Component.name.injEq, Text.encode_inj, String.toList_inj] at hlast
  exact (prebuiltName_inj.1 hlast).2

end

theorem Report.exitCode_ofLocate_ne (files : Files) (s : BindingSearch) :
    (Report.ofLocate files s).exitCode ≠ 2 := by
  have hfailure : (1 : Nat) ≠ 2 := by decide
  have hdocument : (0 : Nat) ≠ 2 := by decide
  rw [Report.ofLocate]
  split
  · exact hfailure
  · dsimp only
    split
    · exact hdocument
    · exact hfailure

/-! ## Looking up by number -/

/-- The search for the prebuilt binary of a version. -/
def withVersion (base : BindingSearch) (n : Nat) : BindingSearch :=
  { base with abi := some (.ofNat n) }

/-- The file name ends in a dash, the digits of the number without leading zeros, and `.node`. -/
def NamedByVersion (path : Path) (n : Nat) : Prop :=
  ∃ digits, path.components.getLast? = some (.name (Text.encode
      ("tree_sitter_abl_binding".toList ++ '-' :: digits ++ ".node".toList))) ∧
    Numeral 10 digits n ∧ (digits.head? = some '0' → digits = ['0'])

/-- How the text in a place is used: what denotes no version is refused, and with what denotes one
the search is for the binary of this version first, under the digits of the number. -/
structure VersionPlace.LooksUp (place : VersionPlace) (files : Files) (base : BindingSearch) :
    Prop where
  usage (value : List UInt8) :
    place.run files value = ⟨2, "", none⟩ ↔ ¬∃ n, DenotesVersion value n
  exitCode (value : List UInt8) :
    (place.run files value).exitCode = 2 ↔ ¬∃ n, DenotesVersion value n
  read {value : List UInt8} {n : Nat} : DenotesVersion value n →
    place.read value = .ok (.locate (withVersion base n)) ∧
    Report.Answers files (withVersion base n) (place.run files value)
  first {n : Nat} : n < UInt32.size → ∃ more,
    (withVersion base n).candidates = base.prebuilt (.ofNat n) :: more ∧
    NamedByVersion (base.prebuilt (.ofNat n)) n
  same {value value' : List UInt8} {m n : Nat} {s t : BindingSearch} :
    DenotesVersion value m → DenotesVersion value' n →
    place.read value = .ok (.locate s) → place.read value' = .ok (.locate t) →
    [s.candidates = t.candidates, List.Forall₂ Path.Alike s.candidates t.candidates, m = n].TFAE

theorem searchFor_of_denotes {base : BindingSearch} (h : DenotesVersion value n) :
    searchFor base value = .ok (.locate (withVersion base n)) := by
  obtain ⟨abi, habi, rfl⟩ := denotesVersion_iff.1 h
  rw [searchFor, habi, withVersion, UInt32.ofNat_toNat]

theorem searchFor_of_not_denotes {base : BindingSearch} (h : ¬∃ n, DenotesVersion value n) :
    searchFor base value = .error .usage := by
  cases habi : abiOfBytes? value with
  | none => rw [searchFor, habi]
  | some abi => exact absurd ⟨_, abiOfBytes?_eq_some_iff.1 habi⟩ h

theorem candidates_withVersion (base : BindingSearch) (n : Nat) :
    (withVersion base n).candidates =
      base.prebuilt (.ofNat n) :: [base.built "Release", base.built "Debug"] := rfl

theorem namedByVersion_prebuilt {base : BindingSearch}
    (hs : base.stem = BindingSearch.usualStem) (hn : n < UInt32.size) :
    NamedByVersion (base.prebuilt (.ofNat n)) n := by
  refine ⟨Nat.toDigits 10 n, ?_, Text.numeral_toDigits (by decide) n, fun hzero => ?_⟩
  · rw [getLast?_components_prebuilt hs, hs, toList_prebuiltName,
      UInt32.toNat_ofNat_of_lt' hn]
  · rw [Text.eq_zero_of_head_toDigits (by decide) hzero]
    rfl

theorem same_candidates {base : BindingSearch} {m : Nat}
    (hs : base.stem = BindingSearch.usualStem) (hm : m < UInt32.size) (hn : n < UInt32.size) :
    [(withVersion base m).candidates = (withVersion base n).candidates,
      List.Forall₂ Path.Alike (withVersion base m).candidates (withVersion base n).candidates,
      m = n].TFAE := by
  tfae_have 1 → 2 := fun h => by
    rw [h]
    exact List.forall₂_same.2 fun _ _ => rfl
  tfae_have 2 → 3 := fun h => by
    rw [candidates_withVersion, candidates_withVersion, List.forall₂_cons] at h
    have habi := congrArg UInt32.toNat (eq_of_prebuilt_alike hs hs h.1)
    rwa [UInt32.toNat_ofNat_of_lt' hm, UInt32.toNat_ofNat_of_lt' hn] at habi
  tfae_have 3 → 1 := fun h => by rw [h]
  tfae_finish

/-- In an invocation that is accepted apart from the version, every text is either refused or looked
up by the number that it denotes. -/
theorem version_found_by_number {place : VersionPlace} (h : place.Accepted) (files : Files) :
    ∃ base, place.LooksUp files base := by
  obtain ⟨base, hstem, hread⟩ := place.exists_search h
  have hrefused : ∀ {value}, (¬∃ n, DenotesVersion value n) →
      place.run files value = ⟨2, "", none⟩ := fun {value} hnone =>
    VersionPlace.run_of_error ((hread value).trans (searchFor_of_not_denotes hnone)) files
  have hanswered : ∀ {value n}, DenotesVersion value n →
      place.run files value = .ofLocate files (withVersion base n) := fun {value n} hn =>
    VersionPlace.run_of_ok ((hread value).trans (searchFor_of_denotes hn)) files
  have hexit : ∀ value, (place.run files value).exitCode = 2 → ¬∃ n, DenotesVersion value n := by
    rintro value hexit ⟨n, hn⟩
    rw [hanswered hn] at hexit
    exact Report.exitCode_ofLocate_ne files _ hexit
  refine ⟨base, ?_⟩
  exact {
    usage := fun value => ⟨fun h => hexit value (by rw [h]), hrefused⟩
    exitCode := fun value => ⟨hexit value, fun h => by rw [hrefused h]⟩
    read := fun {value n} hn => by
      have hstem' : (withVersion base n).stem = BindingSearch.usualStem := hstem
      rw [hread, searchFor_of_denotes hn, hanswered hn]
      exact ⟨rfl, Report.answers_ofLocate hstem' files⟩
    first := fun hn => ⟨_, candidates_withVersion base _, namedByVersion_prebuilt hstem hn⟩
    same := fun {value value' m n s t} hm hn hs ht => by
      rw [hread, searchFor_of_denotes hm] at hs
      rw [hread, searchFor_of_denotes hn] at ht
      cases hs
      cases ht
      exact same_candidates hstem hm.1 hn.1 }

/-- A sign and a leading zero change nothing, and the first number of 33 bits is refused. -/
theorem version_found_by_number_signed :
    let place := VersionPlace.option ⟨none, none⟩ [locateWord] [Text.encode "-ppkg".toList]
    let files := FileTree.fresh.files
    place.Accepted ∧
      place.run files (Text.encode "4294967296".toList) = ⟨2, "", none⟩ ∧
      ∃ s t, place.read (Text.encode "+0115".toList) = .ok (.locate s) ∧
        place.read (Text.encode "115".toList) = .ok (.locate t) ∧ s.candidates = t.candidates := by
  intro place files
  have haccepted : place.Accepted := by
    refine ⟨Text.encode "115".toList,
      { (default : BindingSearch) with platform := "pkg", abi := some 115 }, ?_⟩
    decide +kernel
  obtain ⟨base, hbase⟩ := version_found_by_number haccepted files
  have hlarge : ¬∃ n, DenotesVersion (Text.encode "4294967296".toList) n := by
    rintro ⟨n, hn⟩
    obtain ⟨abi, habi, -⟩ := denotesVersion_iff.1 hn
    rw [show abiOfBytes? (Text.encode "4294967296".toList) = none by decide +kernel] at habi
    cases habi
  have hsigned : DenotesVersion (Text.encode "+0115".toList) 115 :=
    denotesVersion_iff.2 ⟨115, by decide +kernel, rfl⟩
  have hplain : DenotesVersion (Text.encode "115".toList) 115 :=
    denotesVersion_iff.2 ⟨115, by decide +kernel, rfl⟩
  exact ⟨haccepted, (hbase.usage _).2 hlarge, _, _, (hbase.read hsigned).1, (hbase.read hplain).1,
    rfl⟩

end Command
end GrammarModule
