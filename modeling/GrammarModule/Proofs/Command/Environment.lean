import GrammarModule.Proofs.BindingSearch.Candidates
import GrammarModule.Proofs.Command.Front
import GrammarModule.Proofs.Command.Locate

/-!
# GrammarModule.Proofs.Command.Environment

Settings of the environment stand in for options of a search that are not given, and for nothing
else. A setting does what the option with the same value does right after the word
(`request_setting`), an option that is given hides the setting, and a request that is no search
does not depend on any. `environment_is_fallback` says so of whole command lines, be they well
formed or not, and that asking for more log output changes no answer.
-/

namespace GrammarModule
namespace Command

open Json (bind_eq_ok_iff)

variable {files : Files} {env env' : Environment} {arguments before rest : List (List UInt8)}
  {name : OptionName} {value : List UInt8} {search : BindingSearch}

/-! ## The word and what stands around it -/

/-- What is read before the word does not depend on what comes after it. -/
theorem exists_before {grammar : Grammar} {isWord : List UInt8 → Bool} {found leading : Arguments}
    {pending : Option OptionForm} {word : List UInt8}
    (h : readArguments grammar isWord found pending arguments = .ok (leading, word :: rest)) :
    ∃ before, arguments = before ++ word :: rest ∧ ∀ rest',
      readArguments grammar isWord found pending (before ++ word :: rest') =
        .ok (leading, word :: rest') := by
  induction arguments generalizing found pending with
  | nil => cases pending <;> cases h
  | cons argument arguments ih =>
    rcases exists_first grammar isWord found pending argument with
      ⟨rfl, hword⟩ | ⟨rfl, hword, hseparator⟩ | ⟨first, hfirst⟩
    · rw [readArguments, if_pos hword] at h
      cases h
      refine ⟨[], rfl, fun rest' => ?_⟩
      rw [List.nil_append, readArguments, if_pos hword]
    · rw [readArguments, if_neg (by simp [hword]), hseparator] at h
      obtain ⟨_, -, h⟩ := bind_eq_ok_iff.1 h
      cases h
    · rw [hfirst] at h
      obtain ⟨r, hr, h⟩ := bind_eq_ok_iff.1 h
      obtain ⟨before, rfl, hread⟩ := ih h
      refine ⟨argument :: before, rfl, fun rest' => ?_⟩
      rw [List.cons_append, hfirst, hr]
      exact hread rest'

/-- The word of a search. -/
def locateWord : List UInt8 := Text.encode Verb.locate.word.toList

/-- The arguments before the word and those after it, of a command line that chooses a search. -/
def Searches (before rest : List (List UInt8)) : Prop :=
  ∃ leading, readArguments leadingGrammar (fun word => (Verb.ofBytes? word).isSome) .empty none
    (before ++ locateWord :: rest) = .ok (leading, locateWord :: rest)

/-- What the arguments after the word of a search hold. -/
def readSearch (rest : List (List UInt8)) : Except Stop (Arguments × List (List UInt8)) :=
  readArguments Verb.locate.grammar (fun _ => false) .empty none rest

/-- The option is given after the word. -/
def Given (rest : List (List UInt8)) (name : OptionName) : Prop :=
  ∃ found more, readSearch rest = .ok (found, more) ∧ found.has name = true

theorem read_of_word (verb : Verb) {leading : Arguments}
    (h : readArguments leadingGrammar (fun word => (Verb.ofBytes? word).isSome) .empty none
      arguments = .ok (leading, Text.encode verb.word.toList :: rest)) :
    Request.read env arguments = verb.request env rest := by
  have hverb : Verb.ofBytes? (Text.encode verb.word.toList) = some verb := by
    cases verb <;> decide
  simp only [Request.read, h, bind, Except.bind, hverb]

/-- What a command line asks for that chooses a search, with any arguments after the word. -/
theorem Searches.read (h : Searches before rest) (env : Environment)
    (rest' : List (List UInt8)) : Request.read env (before ++ locateWord :: rest') =
      readSearch rest' >>= fun r => locateRequest env r.1 := by
  obtain ⟨leading, h⟩ := h
  obtain ⟨before', hbefore, hread⟩ := exists_before h
  obtain rfl := List.append_cancel_right hbefore
  rw [read_of_word .locate (hread rest')]
  rfl

/-- Every command line that is read as a search has the word and options after it. -/
theorem searches_of_read (h : Request.read env arguments = .ok (.locate search)) :
    ∃ before rest, arguments = before ++ locateWord :: rest ∧ Searches before rest := by
  obtain ⟨leading, rest, found, more, hleading, -, -⟩ := locate_of_read h
  obtain ⟨before, rfl, -⟩ := exists_before hleading
  exact ⟨before, rest, rfl, leading, hleading⟩

/-! ## Where the environment is not looked at -/

theorem run_eq_of_read (h : Request.read env arguments = Request.read env' arguments) :
    run files env arguments = run files env' arguments := by
  rw [run, run, h]

/-- The words that choose something else do not look there. -/
theorem request_eq_of_ne {verb : Verb} (h : verb ≠ .locate) (env env' : Environment) :
    verb.request env rest = verb.request env' rest := by
  cases verb with
  | locate => exact absurd rfl h
  | record => rfl
  | nodeTypes =>
    simp only [Verb.request, reduceCtorEq, if_false]
    congr 1
    funext r
    cases r.1.operands <;> rfl
  | help => rfl

theorem ne_locate_of_makes {found : Arguments} {request : Request} {verb : Verb}
    (h : verb.Makes env found request) (hrequest : ∀ search, request ≠ .locate search) :
    verb ≠ .locate := by
  rintro rfl
  obtain ⟨root, -, h⟩ := bind_eq_ok_iff.1 h
  obtain ⟨abi, -, h⟩ := bind_eq_ok_iff.1 h
  cases h
  exact hrequest _ rfl

theorem optionOr_of_has {found : Arguments} (h : found.has name = true)
    (setting setting' : Option (List UInt8)) :
    optionOr found name setting = optionOr found name setting' := by
  obtain ⟨value, hvalue⟩ := Option.isSome_iff_exists.1 h
  simp only [optionOr, hvalue]

/-! ## Settings and options -/

theorem optionOr_of_not_has {found : Arguments} (h : found.has name = false)
    (setting : Option (List UInt8)) : optionOr found name setting =
      match setting with
      | none => .ok none
      | some value => if accepts name value then .ok (some value) else .error .usage := by
  have hvalue : found.value? name = none := by simpa [Arguments.has] using h
  cases setting <;> simp only [optionOr, hvalue]

theorem optionOr_withFirst_self (found : Arguments) (name : OptionName) (value : List UInt8)
    (setting : Option (List UInt8)) :
    optionOr (found.withFirst name value) name setting = .ok (some value) := by
  simp only [optionOr, Arguments.value?_withFirst, if_true]

theorem optionOr_withFirst_of_ne (found : Arguments) {other : OptionName} (h : other ≠ name)
    (value : List UInt8) (setting : Option (List UInt8)) :
    optionOr (found.withFirst name value) other setting = optionOr found other setting := by
  simp only [optionOr, Arguments.value?_withFirst, if_neg h]

/-- A search with a value from the environment `env`, and the same search with the value as an
option and the environment `env'`. -/
structure StandsIn (env env' : Environment) (name : OptionName) (value : List UInt8) : Prop where
  accepted : ∀ found : Arguments, found.has name = false → accepts name value = true →
    locateRequest env found = locateRequest env' (found.withFirst name value)
  refused : ∀ found : Arguments, found.has name = false → accepts name value = false →
    locateRequest env found = .error .usage

theorem standsIn_root (env : Environment) (value : List UInt8) :
    StandsIn { env with moduleRoot := some value } { env with moduleRoot := none } .root value where
  accepted found h haccepts := by
    simp only [locateRequest, optionOr_of_not_has h, haccepts, optionOr_withFirst_self,
      optionOr_withFirst_of_ne found (show OptionName.abi ≠ .root by decide),
      Arguments.value?_withFirst]
    rfl
  refused found h haccepts := by
    simp only [locateRequest, optionOr_of_not_has h, haccepts]
    rfl

theorem standsIn_abi (env : Environment) (value : List UInt8) :
    StandsIn { env with nodeAbi := some value } { env with nodeAbi := none } .abi value where
  accepted found h haccepts := by
    simp only [locateRequest, optionOr_of_not_has h, haccepts, optionOr_withFirst_self,
      optionOr_withFirst_of_ne found (show OptionName.root ≠ .abi by decide),
      Arguments.value?_withFirst]
    rfl
  refused found h haccepts := by
    simp only [locateRequest, optionOr_of_not_has h, haccepts]
    -- the root may be refused before
    have hroot : optionOr found .root env.moduleRoot = .error .usage ∨
        ∃ root, optionOr found .root env.moduleRoot = .ok root := by
      simp only [optionOr]
      split
      · exact .inr ⟨_, rfl⟩
      · exact .inr ⟨_, rfl⟩
      · split_ifs
        · exact .inr ⟨_, rfl⟩
        · exact .inl rfl
    rcases hroot with hroot | ⟨root, hroot⟩ <;> rw [hroot] <;> rfl

/-- An argument right after the word that gives an option its value. -/
def Writes (argument : List UInt8) (name : OptionName) (value : List UInt8) : Prop :=
  ∀ rest, readSearch (argument :: rest) =
    if accepts name value then
      readArguments Verb.locate.grammar (fun _ => false) (Arguments.empty.withFirst name value)
        none rest
    else .error .usage

theorem writes_of_long {argument : List UInt8} (long : List UInt8) (form : OptionForm)
    (hargument : Argument.ofBytes argument = .long long (some value))
    (hlong : Verb.locate.grammar.long? long = some form) (hvalue : form.takesValue = true)
    (hname : form.name ≠ .help ∧ form.name ≠ .version) : Writes argument form.name value := by
  intro rest
  have hadd : Arguments.empty.addOption Verb.locate.grammar form.name value =
      if accepts form.name value then .ok (Arguments.empty.withFirst form.name value)
      else .error .usage := by
    have haccepts : Verb.locate.grammar.accepts = accepts := rfl
    simp only [Arguments.addOption, if_neg hname.1, if_neg hname.2, haccepts]
    cases accepts form.name value <;> rfl
  rw [readSearch, readArguments, hargument]
  simp only [Bool.false_eq_true, if_false, readLong, hlong, hvalue, if_true, hadd]
  split <;> rfl

theorem writes_root (value : List UInt8) :
    Writes (Text.encode "--root=".toList ++ value) .root value :=
  writes_of_long (Text.encode "root".toList) ⟨.root, "root", some 'r', true⟩ rfl rfl rfl (by decide)

theorem writes_abi (value : List UInt8) :
    Writes (Text.encode "--abi=".toList ++ value) .abi value :=
  writes_of_long (Text.encode "abi".toList) ⟨.abi, "abi", some 'a', true⟩ rfl rfl rfl (by decide)

/-- A setting does what the option with the same value does right after the word. -/
theorem request_setting {argument : List UInt8} (hset : StandsIn env env' name value)
    (hwrites : Writes argument name value) (hgiven : ¬Given rest name)
    (hstop : ∀ stop, readSearch rest = .error stop → stop = .usage) :
    (readSearch rest >>= fun r => locateRequest env r.1) =
      readSearch (argument :: rest) >>= fun r => locateRequest env' r.1 := by
  have hfront : Front name value (readSearch rest)
      (readArguments Verb.locate.grammar (fun _ => false) (Arguments.empty.withFirst name value)
        none rest) := readArguments_front rfl _ none rest
  rw [hwrites rest]
  cases hread : readSearch rest with
  | error stop =>
    obtain rfl := hstop stop hread
    rw [hfront.usage hread]
    split <;> rfl
  | ok r =>
    have hhas : r.1.has name = false := by
      by_contra hhas
      exact hgiven ⟨r.1, r.2, hread, by simpa using hhas⟩
    split
    · next haccepts =>
      rw [hfront.same r hread hhas]
      exact hset.accepted r.1 hhas haccepts
    · next haccepts => exact hset.refused r.1 hhas (by simpa using haccepts)

/-! ## Neither given nor set -/

/-- Everything that is read after the word is what the search is made of. -/
theorem Searches.effective (h : Searches before rest)
    (hread : Request.read env (before ++ locateWord :: rest) = .ok (.locate search)) :
    ∃ found more, readSearch rest = .ok (found, more) ∧ Effective env found search := by
  rw [h.read] at hread
  obtain ⟨⟨found, more⟩, hfound, hread⟩ := bind_eq_ok_iff.1 hread
  exact ⟨found, more, hfound,
    effective_of_locateRequest (readArguments_accepted Arguments.accepted_empty hfound) hread⟩

theorem value?_eq_none_of_not_given {found : Arguments} {more : List (List UInt8)}
    (hfound : readSearch rest = .ok (found, more)) (h : ¬Given rest name) :
    found.value? name = none := by
  by_contra hvalue
  exact h ⟨found, more, hfound, Option.isSome_iff_ne_none.2 hvalue⟩

/-- A search that is told neither its root nor the version. -/
theorem Effective.of_neither {found : Arguments} (h : Effective ⟨none, none⟩ found search)
    (hroot : found.value? .root = none) (habi : found.value? .abi = none) :
    search.root = .ofText "." ∧ search.abi = none := by
  have hr := h.root
  have ha := h.abi
  rw [hroot] at hr
  rw [habi] at ha
  exact ⟨hr, ha⟩

/-! ## Whole command lines -/

/-- The arguments ask for help or for the version. -/
def AsksAboutProgram (env : Environment) (arguments : List (List UInt8)) : Prop :=
  Request.read env arguments = .error .help ∨ Request.read env arguments = .error .version

theorem stop_of_not_asks (h : Searches before rest)
    (hasks : ¬AsksAboutProgram env (before ++ locateWord :: rest)) :
    ∀ stop, readSearch rest = .error stop → stop = .usage := by
  intro stop hstop
  have hread := h.read env rest
  rw [hstop] at hread
  cases stop with
  | usage => rfl
  | help => exact absurd (.inl hread) hasks
  | version => exact absurd (.inr hread) hasks

theorem run_setting {argument : List UInt8} (h : Searches before rest)
    (hset : StandsIn env env' name value) (hwrites : Writes argument name value)
    (hgiven : ¬Given rest name) (hasks : ¬AsksAboutProgram env (before ++ locateWord :: rest))
    (files : Files) : run files env (before ++ locateWord :: rest) =
      run files env' (before ++ locateWord :: argument :: rest) := by
  rw [run, run, h.read, h.read, request_setting hset hwrites hgiven (stop_of_not_asks h hasks)]

/-- The flag for more log output, before the word. -/
def verboseFlag : List UInt8 := Text.encode "--verbose".toList

/-- The flag is given before the word. -/
def Verbose (arguments : List (List UInt8)) : Prop :=
  ∃ leading rest, readArguments leadingGrammar (fun word => (Verb.ofBytes? word).isSome) .empty
    none arguments = .ok (leading, rest) ∧ leading.has .verbose = true

theorem read_verbose {request : Request} (h : Request.read env arguments = .ok request)
    (hverbose : ¬Verbose arguments) :
    Request.read env (verboseFlag :: arguments) = .ok request := by
  have hflag : readArguments leadingGrammar (fun word => (Verb.ofBytes? word).isSome) .empty none
      (verboseFlag :: arguments) = readArguments leadingGrammar
        (fun word => (Verb.ofBytes? word).isSome) (Arguments.empty.withFirst .verbose []) none
        arguments := rfl
  obtain ⟨⟨leading, rest⟩, hleading, h⟩ := bind_eq_ok_iff.1 h
  have hhas : leading.has .verbose = false := by
    by_contra hhas
    exact hverbose ⟨leading, rest, hleading, by simpa using hhas⟩
  have hafter : readArguments leadingGrammar (fun word => (Verb.ofBytes? word).isSome)
      (Arguments.empty.withFirst .verbose []) none arguments =
        .ok (leading.withFirst .verbose [], rest) :=
    (readArguments_front rfl _ none arguments).same _ hleading hhas
  rw [Request.read, hflag, hafter]
  exact h

/-- What the environment and the flag for more log output do to the answers. -/
structure Fallback (files : Files) : Prop where
  /-- The environment does not matter to a request that is no search. -/
  other {env env' : Environment} {arguments : List (List UInt8)} {request : Request} :
    Request.read env arguments = .ok request → (∀ search, request ≠ .locate search) →
    run files env' arguments = run files env arguments
  /-- Every search is asked for by the word and options after it. -/
  search {env : Environment} {arguments : List (List UInt8)} {search : BindingSearch} :
    Request.read env arguments = .ok (.locate search) →
    ∃ before rest, arguments = before ++ locateWord :: rest ∧ Searches before rest
  /-- Nor does it where both options are given. -/
  given {env env' : Environment} {before rest : List (List UInt8)} :
    Searches before rest → Given rest .root → Given rest .abi →
    run files env' (before ++ locateWord :: rest) = run files env (before ++ locateWord :: rest)
  /-- A root that is not given is the one in the environment. -/
  root {env : Environment} {before rest : List (List UInt8)} {value : List UInt8} :
    let set : Environment := { env with moduleRoot := some value }
    let unset : Environment := { env with moduleRoot := none }
    Searches before rest → ¬Given rest .root → value ≠ [] →
    ¬AsksAboutProgram set (before ++ locateWord :: rest) →
    run files set (before ++ locateWord :: rest) =
      run files unset (before ++ locateWord :: (Text.encode "--root=".toList ++ value) :: rest)
  /-- A version that is not given is the one in the environment, be it well formed or not. -/
  abi {env : Environment} {before rest : List (List UInt8)} {value : List UInt8} :
    let set : Environment := { env with nodeAbi := some value }
    let unset : Environment := { env with nodeAbi := none }
    Searches before rest → ¬Given rest .abi →
    ¬AsksAboutProgram set (before ++ locateWord :: rest) →
    run files set (before ++ locateWord :: rest) =
      run files unset (before ++ locateWord :: (Text.encode "--abi=".toList ++ value) :: rest)
  /-- With neither given nor set, the search is in the current directory, for local builds only. -/
  neither {before rest : List (List UInt8)} {search : BindingSearch} :
    Searches before rest → ¬Given rest .root → ¬Given rest .abi →
    Request.read ⟨none, none⟩ (before ++ locateWord :: rest) = .ok (.locate search) →
    search.root = .ofText "." ∧
    search.candidates = [.ofText "./build/Release/tree_sitter_abl_binding.node",
      .ofText "./build/Debug/tree_sitter_abl_binding.node"] ∧
    (∀ abi, search.prebuilt abi ∉ search.candidates) ∧
    Report.Answers files search (run files ⟨none, none⟩ (before ++ locateWord :: rest))
  /-- More log output changes no answer. -/
  verbose {env : Environment} {arguments : List (List UInt8)} {request : Request} :
    Request.read env arguments = .ok request → ¬Verbose arguments →
    run files env (verboseFlag :: arguments) = run files env arguments

/-- Settings stand in for options that are not given, over every file system and command line. -/
theorem environment_is_fallback (files : Files) : Fallback files where
  other {env env' arguments request} h hrequest := by
    obtain ⟨leading, rest, found, more, verb, hleading, -, hmakes⟩ := verb_of_read h
    apply run_eq_of_read
    rw [read_of_word verb hleading, read_of_word verb hleading]
    exact request_eq_of_ne (ne_locate_of_makes hmakes hrequest) _ _
  search h := searches_of_read h
  given {env env' before rest} h hroot habi := by
    obtain ⟨found, more, hfound, hroot⟩ := hroot
    obtain ⟨found', more', hfound', habi⟩ := habi
    obtain ⟨rfl, rfl⟩ := Prod.mk.inj (Except.ok.inj (hfound'.symm.trans hfound))
    apply run_eq_of_read
    rw [h.read, h.read, hfound]
    -- the two runs now differ in what the options fall back to
    show locateRequest env' found' = locateRequest env found'
    rw [locateRequest, optionOr_of_has hroot env'.moduleRoot env.moduleRoot,
      optionOr_of_has habi env'.nodeAbi env.nodeAbi, ← locateRequest]
  root h hgiven _ hasks := run_setting h (standsIn_root _ _) (writes_root _) hgiven hasks files
  abi h hgiven hasks := run_setting h (standsIn_abi _ _) (writes_abi _) hgiven hasks files
  neither {before rest search} h hroot habi hread := by
    obtain ⟨found, more, hfound, heffective⟩ := h.effective hread
    obtain ⟨hroot, habi⟩ := heffective.of_neither (value?_eq_none_of_not_given hfound hroot)
      (value?_eq_none_of_not_given hfound habi)
    have hcandidates : search.candidates = [.ofText "./build/Release/tree_sitter_abl_binding.node",
        .ofText "./build/Debug/tree_sitter_abl_binding.node"] := by
      rw [BindingSearch.candidates, habi, BindingSearch.built, BindingSearch.built, hroot,
        heffective.stem]
      rfl
    have hstem : BindingSearch.Relative search.stem := by
      rw [heffective.stem]
      decide
    refine ⟨hroot, hcandidates, BindingSearch.prebuilt_not_mem_of_no_abi hstem habi, ?_⟩
    rw [run, hread]
    exact Report.answers_ofLocate heffective.stem files
  verbose h hverbose := by
    rw [run, run, h, read_verbose h hverbose]

/-- A search in an empty tree, the version in the environment being none. -/
theorem environment_is_fallback_fresh :
    let files := FileTree.fresh.files
    let value := Text.encode "x".toList
    let rest := [Text.encode "-ppkg".toList]
    run files ⟨none, some value⟩ (locateWord :: rest) =
      run files ⟨none, none⟩ (locateWord :: (Text.encode "--abi=".toList ++ value) :: rest) ∧
    run files ⟨some [], some value⟩ [Text.encode "record".toList] =
      run files ⟨none, none⟩ [Text.encode "record".toList] := by
  intro files value rest
  have hfallback := environment_is_fallback files
  have hsearch : Searches [] rest := ⟨.empty, rfl⟩
  have hread : readSearch rest = .ok (⟨[(.platform, Text.encode "pkg".toList)], []⟩, []) := by
    decide +kernel
  have hgiven : ¬Given rest .abi := by
    rintro ⟨found, more, hfound, hhas⟩
    obtain ⟨rfl, -⟩ := Prod.mk.inj (Except.ok.inj (hread.symm.trans hfound))
    cases hhas
  have husage : Request.read ⟨none, some value⟩ (locateWord :: rest) = .error .usage := by
    decide +kernel
  have hasks : ¬AsksAboutProgram ⟨none, some value⟩ (locateWord :: rest) := by
    rintro (h | h) <;> cases husage.symm.trans h
  have hrecord : Request.read ⟨none, none⟩ [Text.encode "record".toList] = .ok (.record true) := by
    decide +kernel
  refine ⟨?_, hfallback.other hrecord ?_⟩
  · exact @Fallback.abi _ hfallback ⟨none, none⟩ [] rest value hsearch hgiven hasks
  · rintro search ⟨⟩

end Command
end GrammarModule
