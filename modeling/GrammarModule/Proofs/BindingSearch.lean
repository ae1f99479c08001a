import GrammarModule.BindingSearch
import GrammarModule.Proofs.Files.Walk

/-!
# GrammarModule.Proofs.BindingSearch

The first place that decides: the search ends at the first regular file, or at the first place
that cannot be looked at, whatever is behind it. `locate_first_match` says so for every search, and
compares the search with and without a prebuilt binary.
-/

namespace GrammarModule

namespace Files

variable {files : Files} {path : Path}

/-- The search goes on after this place: something else is there, or nothing. -/
def PassedOver (files : Files) (path : Path) : Prop :=
  files.kind path = .ok .other ∨ files.kind path = .error .notFound

theorem look (files : Files) (path : Path) : files.PassedOver path ∨
    files.kind path = .ok .regular ∨ ∃ e, files.kind path = .error e ∧ e ≠ .notFound := by
  cases h : files.kind path with
  | ok kind =>
    cases kind with
    | regular => exact .inr (.inl rfl)
    | other => exact .inl (.inl h)
  | error e =>
    by_cases he : e = .notFound
    · subst he
      exact .inl (.inr h)
    · exact .inr (.inr ⟨e, rfl, he⟩)

end Files

namespace BindingSearch

variable {files files' : Files} {paths rest : List Path} {path other : Path} {e : StorageError}
  {s : BindingSearch}

/-- All places before this one are passed over. -/
def FirstAt (files : Files) (paths : List Path) (path : Path) : Prop :=
  ∃ before after, paths = before ++ path :: after ∧ ∀ other ∈ before, files.PassedOver other

/-! ## The first of some places -/

theorem firstRegular_of_passedOver (h : files.PassedOver path) (rest : List Path) :
    firstRegular files (path :: rest) = firstRegular files rest := by
  rcases h with h | h <;> simp only [firstRegular, Files.isRegular, h] <;> rfl

theorem firstRegular_of_regular (h : files.kind path = .ok .regular) (rest : List Path) :
    firstRegular files (path :: rest) = .ok (some path) := by
  simp only [firstRegular, Files.isRegular, h]
  rfl

theorem firstRegular_of_failing (h : files.kind path = .error e) (he : e ≠ .notFound)
    (rest : List Path) : firstRegular files (path :: rest) = .error e := by
  have hregular : files.isRegular path = .error e := by
    simp only [Files.isRegular, h]
  rw [firstRegular, hregular]
  rfl

theorem firstRegular_append (h : ∀ other ∈ paths, files.PassedOver other) (rest : List Path) :
    firstRegular files (paths ++ rest) = firstRegular files rest := by
  induction paths with
  | nil => rfl
  | cons first paths ih =>
    rw [List.cons_append, firstRegular_of_passedOver (h first List.mem_cons_self)]
    exact ih fun other hother => h other (List.mem_cons_of_mem _ hother)

theorem exists_firstAt (files : Files) (paths : List Path) :
    (∀ path ∈ paths, files.PassedOver path) ∨
      ∃ path, FirstAt files paths path ∧ ¬ files.PassedOver path := by
  induction paths with
  | nil => exact .inl fun _ h => nomatch h
  | cons first rest ih =>
    by_cases hfirst : files.PassedOver first
    · rcases ih with hall | ⟨path, ⟨before, after, rfl, hbefore⟩, hpath⟩
      · exact .inl (List.forall_mem_cons.2 ⟨hfirst, hall⟩)
      · exact .inr ⟨path, ⟨first :: before, after, rfl,
          List.forall_mem_cons.2 ⟨hfirst, hbefore⟩⟩, hpath⟩
    · exact .inr ⟨first, ⟨[], rest, rfl, fun _ h => nomatch h⟩, hfirst⟩

/-! ## The search -/

theorem locate_of_regular (hf : FirstAt files s.candidates path)
    (h : files.kind path = .ok .regular) : locate files s = .ok path := by
  obtain ⟨before, after, hsplit, hbefore⟩ := hf
  rw [locate, hsplit, firstRegular_append hbefore, firstRegular_of_regular h]

theorem locate_of_failing (hf : FirstAt files s.candidates path) (h : files.kind path = .error e)
    (he : e ≠ .notFound) : locate files s = .error (.storage e) := by
  obtain ⟨before, after, hsplit, hbefore⟩ := hf
  rw [locate, hsplit, firstRegular_append hbefore, firstRegular_of_failing h he]

theorem locate_of_all (h : ∀ path ∈ s.candidates, files.PassedOver path) :
    locate files s = .error (.bindingNotFound s.candidates) := by
  have hnone := firstRegular_append h []
  rw [List.append_nil] at hnone
  rw [locate, hnone, firstRegular]

/-- Every search ends in one of three ways. -/
inductive Verdict (files : Files) (s : BindingSearch) : Except Failure Path → Prop
  | found {path : Path} (hf : FirstAt files s.candidates path)
      (h : files.kind path = .ok .regular) : Verdict files s (.ok path)
  | failed {path : Path} {e : StorageError} (hf : FirstAt files s.candidates path)
      (h : files.kind path = .error e) (he : e ≠ .notFound) : Verdict files s (.error (.storage e))
  | notFound (h : ∀ path ∈ s.candidates, files.PassedOver path) :
      Verdict files s (.error (.bindingNotFound s.candidates))

theorem Verdict.locate_eq {r : Except Failure Path} (h : Verdict files s r) :
    locate files s = r := by
  cases h with
  | found hf h => exact locate_of_regular hf h
  | failed hf h he => exact locate_of_failing hf h he
  | notFound h => exact locate_of_all h

theorem verdict_locate (files : Files) (s : BindingSearch) : Verdict files s (locate files s) := by
  rcases exists_firstAt files s.candidates with hall | ⟨path, hf, hpath⟩
  · rw [locate_of_all hall]
    exact .notFound hall
  · rcases files.look path with h | h | ⟨e, h, he⟩
    · exact absurd h hpath
    · rw [locate_of_regular hf h]
      exact .found hf h
    · rw [locate_of_failing hf h he]
      exact .failed hf h he

/-- The same failure, a further place having been searched before the others. -/
def alsoSearched (path : Path) : Failure → Failure
  | .bindingNotFound searched => .bindingNotFound (path :: searched)
  | failure => failure

theorem candidates_some (s : BindingSearch) (abi : UInt32) :
    { s with abi := some abi }.candidates =
      s.prebuilt abi :: { s with abi := none }.candidates := rfl

/-- What a search gives, and what that depends on. -/
structure FirstMatch (files : Files) (s : BindingSearch) : Prop where
  found : ∀ path, locate files s = .ok path ↔
    FirstAt files s.candidates path ∧ files.kind path = .ok .regular
  failed : ∀ e, locate files s = .error (.storage e) ↔
    ∃ path, FirstAt files s.candidates path ∧ files.kind path = .error e ∧ e ≠ .notFound
  notFound : ∀ searched, locate files s = .error (.bindingNotFound searched) ↔
    (∀ path ∈ s.candidates, files.PassedOver path) ∧ searched = s.candidates
  one : (∃ path, locate files s = .ok path) ∨ (∃ e, locate files s = .error (.storage e)) ∨
    locate files s = .error (.bindingNotFound s.candidates)
  /-- Places behind the deciding one have no effect. -/
  decided : ∀ (files' : Files) before path after, s.candidates = before ++ path :: after →
    (∀ other ∈ before, files.PassedOver other) → ¬ files.PassedOver path →
    (∀ other ∈ before ++ [path], files'.kind other = files.kind other) →
    locate files' s = locate files s
  /-- A prebuilt binary decides, or the search is the one without it. -/
  prebuilt : ∀ abi,
    (files.kind (s.prebuilt abi) = .ok .regular →
      locate files { s with abi := some abi } = .ok (s.prebuilt abi)) ∧
    (∀ e, files.kind (s.prebuilt abi) = .error e → e ≠ .notFound →
      locate files { s with abi := some abi } = .error (.storage e)) ∧
    (files.PassedOver (s.prebuilt abi) → locate files { s with abi := some abi } =
      (locate files { s with abi := none }).mapError (alsoSearched (s.prebuilt abi)))

theorem locate_eq_iff {r : Except Failure Path} : locate files s = r ↔ Verdict files s r := by
  constructor
  · rintro rfl
    exact verdict_locate files s
  · exact Verdict.locate_eq

theorem locate_of_prebuilt_passedOver {abi : UInt32} (h : files.PassedOver (s.prebuilt abi)) :
    locate files { s with abi := some abi } =
      (locate files { s with abi := none }).mapError (alsoSearched (s.prebuilt abi)) := by
  have hfirst : ∀ path, FirstAt files { s with abi := none }.candidates path →
      FirstAt files { s with abi := some abi }.candidates path := by
    rintro path ⟨before, after, hsplit, hbefore⟩
    refine ⟨s.prebuilt abi :: before, after, ?_, List.forall_mem_cons.2 ⟨h, hbefore⟩⟩
    rw [candidates_some, hsplit, List.cons_append]
  have hverdict := verdict_locate files { s with abi := none }
  generalize locate files { s with abi := none } = r at hverdict ⊢
  cases hverdict with
  | found hf hkind => exact locate_of_regular (hfirst _ hf) hkind
  | failed hf hkind he => exact locate_of_failing (hfirst _ hf) hkind he
  | notFound hall => exact locate_of_all (List.forall_mem_cons.2 ⟨h, hall⟩)

theorem locate_congr {before after : List Path} (hsplit : s.candidates = before ++ path :: after)
    (hbefore : ∀ other ∈ before, files.PassedOver other) (hpath : ¬ files.PassedOver path)
    (hsame : ∀ other ∈ before ++ [path], files'.kind other = files.kind other) :
    locate files' s = locate files s := by
  have hkind : files'.kind path = files.kind path := hsame path (by simp)
  have hbefore' : ∀ other ∈ before, files'.PassedOver other := by
    intro other hother
    rw [Files.PassedOver, hsame other (List.mem_append_left _ hother)]
    exact hbefore other hother
  rcases files.look path with h | h | ⟨e, h, he⟩
  · exact absurd h hpath
  · rw [locate_of_regular ⟨before, after, hsplit, hbefore⟩ h,
      locate_of_regular ⟨before, after, hsplit, hbefore'⟩ (hkind.trans h)]
  · rw [locate_of_failing ⟨before, after, hsplit, hbefore⟩ h he,
      locate_of_failing ⟨before, after, hsplit, hbefore'⟩ (hkind.trans h) he]

theorem firstMatch (files : Files) (s : BindingSearch) : FirstMatch files s where
  found path := by
    constructor
    · intro h
      cases locate_eq_iff.1 h with
      | found hf hkind => exact ⟨hf, hkind⟩
    · rintro ⟨hf, hkind⟩
      exact locate_of_regular hf hkind
  failed e := by
    constructor
    · intro h
      cases locate_eq_iff.1 h with
      | failed hf hkind he => exact ⟨_, hf, hkind, he⟩
    · rintro ⟨path, hf, hkind, he⟩
      exact locate_of_failing hf hkind he
  notFound searched := by
    constructor
    · intro h
      cases locate_eq_iff.1 h with
      | notFound hall => exact ⟨hall, rfl⟩
    · rintro ⟨hall, rfl⟩
      exact locate_of_all hall
  one := by
    have hverdict := verdict_locate files s
    generalize locate files s = r at hverdict
    cases hverdict with
    | found => exact .inl ⟨_, rfl⟩
    | failed => exact .inr (.inl ⟨_, rfl⟩)
    | notFound => exact .inr (.inr rfl)
  decided _ _ _ _ := locate_congr
  prebuilt abi := by
    have hfirst : FirstAt files { s with abi := some abi }.candidates (s.prebuilt abi) :=
      ⟨[], _, rfl, fun _ h => nomatch h⟩
    exact ⟨locate_of_regular hfirst, fun _ => locate_of_failing hfirst,
      locate_of_prebuilt_passedOver⟩

/-- Every search, in every file system, gives the first regular file, or stops at the first place
that cannot be looked at, or has passed over all places. In a file tree, what is at a place is
found at the end of the walk along its path. -/
theorem locate_first_match (s : BindingSearch) :
    (∀ files, FirstMatch files s) ∧
    ∀ (t : FileTree) (path : Path),
      (t.files.kind path = .ok .regular ↔ ∃ contents, t.Finds path (.ok (.file contents))) ∧
      (t.files.kind path = .ok .other ↔
        ∃ node, t.Finds path (.ok node) ∧ ∀ contents, node ≠ .file contents) ∧
      ∀ e, t.files.kind path = .error e ↔ t.Finds path (.error e) :=
  ⟨fun files => firstMatch files s, fun t path =>
    ⟨t.kind_eq_regular_iff path, t.kind_eq_other_iff path, t.kind_eq_error_iff path⟩⟩

end BindingSearch
end GrammarModule
