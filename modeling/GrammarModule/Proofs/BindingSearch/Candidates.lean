import GrammarModule.BindingSearch
import GrammarModule.Proofs.Path.Components
import Mathlib.Data.List.Forall2

/-!
# GrammarModule.Proofs.BindingSearch.Candidates

The places that are searched. They are built from the root by joining, so with a platform and a
stem that are relative each lies below the root, where its parts lead (`below_candidates`). What a
stem ends with ends the last name of a place: this tells the places of one search apart, and the
prebuilt binaries of different stems and versions (`candidates_construction`).
-/

namespace GrammarModule

/-- The path is the other one, or leads on from it by names alone, without going up. -/
def Path.Within (root path : Path) : Prop :=
  ∃ below, path.components = root.components ++ below ∧ ∀ c ∈ below, ∃ name, c = .name name

namespace BindingSearch

open GrammarModule.Path

variable {s : BindingSearch} {stem stem' suffix suffix' profile : String} {abi abi' : UInt32}

/-- The text does not begin with a slash. -/
def Relative (text : String) : Prop := text.toList.head? ≠ some '/'

instance (text : String) : Decidable (Relative text) := inferInstanceAs (Decidable (_ ≠ _))

/-- The file name of the prebuilt binary. -/
def prebuiltName (stem : String) (abi : UInt32) : String :=
  stem ++ "-" ++ Nat.repr abi.toNat ++ ".node"

/-- The file name of the output of a build. -/
def builtName (stem : String) : String := stem ++ ".node"

/-- What the file name of the prebuilt binary has after the stem. -/
def prebuiltEnding (abi : UInt32) : String := "-" ++ (Nat.repr abi.toNat ++ ".node")

theorem prebuiltName_eq (stem : String) (abi : UInt32) :
    prebuiltName stem abi = stem ++ prebuiltEnding abi := by
  rw [prebuiltName, prebuiltEnding, String.append_assoc, String.append_assoc]

theorem prebuilt_eq (s : BindingSearch) (abi : UInt32) : s.prebuilt abi =
    ((s.root.join (ofText "prebuilds")).join (ofText s.platform)).join
      (ofText (prebuiltName s.stem abi)) := rfl

theorem built_eq (s : BindingSearch) (profile : String) : s.built profile =
    ((s.root.join (ofText "build")).join (ofText profile)).join (ofText (builtName s.stem)) := rfl

/-! ## Relative texts -/

theorem Relative.isAbsolute_eq (h : Relative stem) : (ofText stem).isAbsolute = false := by
  rw [← Bool.not_eq_true, isAbsolute_ofText_iff]
  exact h

theorem Relative.append (h : Relative stem) (hs : Relative suffix) : Relative (stem ++ suffix) := by
  rw [Relative, String.toList_append]
  cases hstem : stem.toList with
  | nil => exact hs
  | cons c rest =>
    rw [Relative, hstem] at h
    exact h

theorem isAbsolute_append (h : ¬ Relative stem) (suffix : String) :
    (ofText (stem ++ suffix)).isAbsolute = true := by
  rw [Relative, not_not] at h
  rw [isAbsolute_ofText_iff, String.toList_append, List.head?_append, h, Option.some_or]

theorem relative_prebuiltEnding (abi : UInt32) : Relative (prebuiltEnding abi) := by
  rw [Relative, prebuiltEnding, String.toList_append]
  simp

theorem Relative.prebuiltName (h : Relative stem) (abi : UInt32) :
    Relative (prebuiltName stem abi) := by
  rw [prebuiltName_eq]
  exact h.append (relative_prebuiltEnding abi)

theorem Relative.builtName (h : Relative stem) : Relative (builtName stem) := by
  refine h.append ?_
  rw [Relative]
  decide

/-! ## Places below the root -/

variable {root middle file : Path} {first : List UInt8}

/-- A relative path is joined to a name below the root, and another one to that. -/
theorem components_place {top : Path} (htop : top.start = []) (hname : top.steps = [.name first])
    (hmiddle : middle.isAbsolute = false) (hfile : file.isAbsolute = false) :
    (((root.join top).join middle).join file).components =
      root.components ++ .name first :: (middle.steps ++ file.steps) := by
  have hbelow : (root.join top).components = root.components ++ [.name first] := by
    rw [components_join_of_start htop, hname]
  have hne : (root.join top).bytes ≠ [] := by
    rw [Ne, ← components_eq_nil_iff, hbelow]
    simp
  have hnext : ((root.join top).join middle).components =
      root.components ++ .name first :: middle.steps := by
    rw [components_join hne hmiddle, hbelow, List.append_assoc, List.singleton_append]
  have hnext_ne : ((root.join top).join middle).bytes ≠ [] := by
    rw [Ne, ← components_eq_nil_iff, hnext]
    simp
  rw [components_join hnext_ne hfile, hnext, List.append_assoc, List.cons_append]

/-- Where a place is to which the parts lead from the root. What is written begins with the root,
the components are those of the root and then the parts, and without two dots in the parts the
root is not left. -/
structure Below (root path : Path) (parts : List Component) : Prop where
  prefix_bytes : root.bytes <+: path.bytes
  components : path.components = root.components ++ parts
  within : Component.parent ∉ parts → root.Within path

theorem below_place {top : Path} (habsolute : top.isAbsolute = false) (htop : top.start = [])
    (hname : top.steps = [.name first]) (hmiddle : middle.isAbsolute = false)
    (hfile : file.isAbsolute = false) :
    Below root (((root.join top).join middle).join file)
      (.name first :: (middle.steps ++ file.steps)) := by
  have hbytes : root.bytes <+: (((root.join top).join middle).join file).bytes :=
    (prefix_bytes_join habsolute root).trans
      ((prefix_bytes_join hmiddle _).trans (prefix_bytes_join hfile _))
  have hcomponents : (((root.join top).join middle).join file).components =
      root.components ++ .name first :: (middle.steps ++ file.steps) :=
    components_place htop hname hmiddle hfile
  refine ⟨hbytes, hcomponents, ?_⟩
  intro hparent
  refine ⟨_, hcomponents, ?_⟩
  intro c hc
  have hstep : c = .parent ∨ ∃ name, c = .name name := by
    rcases List.mem_cons.1 hc with rfl | hc
    · exact .inr ⟨first, rfl⟩
    · exact (List.mem_append.1 hc).elim parent_or_name parent_or_name
  exact hstep.resolve_left fun h => hparent (h ▸ hc)

/-- The two profiles of a local build. -/
def profiles : List String := ["Release", "Debug"]

/-- What the prebuilt binary adds to the root: its directory, and the steps of the platform and of
the file name, from which empty segments and dots are gone. -/
def prebuiltParts (s : BindingSearch) (abi : UInt32) : List Component :=
  .name (Text.encode "prebuilds".toList) ::
    ((ofText s.platform).steps ++ (ofText (prebuiltName s.stem abi)).steps)

/-- What the output of a build adds to the root. -/
def builtParts (s : BindingSearch) (profile : String) : List Component :=
  .name (Text.encode "build".toList) :: .name (Text.encode profile.toList) ::
    (ofText (builtName s.stem)).steps

/-- What each place of a search adds to the root, in order. -/
def parts (s : BindingSearch) : List (List Component) :=
  (s.abi.map s.prebuiltParts).toList ++ profiles.map s.builtParts

theorem below_prebuilt (hplatform : Relative s.platform) (hstem : Relative s.stem)
    (abi : UInt32) : Below s.root (s.prebuilt abi) (s.prebuiltParts abi) :=
  below_place rfl rfl rfl hplatform.isAbsolute_eq (hstem.prebuiltName abi).isAbsolute_eq

theorem below_built (hstem : Relative s.stem) (habsolute : (ofText profile).isAbsolute = false)
    (hsteps : (ofText profile).steps = [.name (Text.encode profile.toList)]) :
    Below s.root (s.built profile) (s.builtParts profile) := by
  have hbelow : Below s.root (s.built profile) (.name (Text.encode "build".toList) ::
      ((ofText profile).steps ++ (ofText (builtName s.stem)).steps)) :=
    below_place rfl rfl rfl habsolute hstem.builtName.isAbsolute_eq
  rw [hsteps, List.singleton_append] at hbelow
  exact hbelow

theorem below_candidates (hplatform : Relative s.platform) (hstem : Relative s.stem) :
    List.Forall₂ (Below s.root) s.candidates s.parts := by
  have hbuilt : List.Forall₂ (Below s.root) (profiles.map s.built) (profiles.map s.builtParts) :=
    .cons (below_built hstem rfl rfl) (.cons (below_built hstem rfl rfl) .nil)
  rw [candidates, parts]
  cases s.abi with
  | none => exact hbuilt
  | some abi => exact .cons (below_prebuilt hplatform hstem abi) hbuilt

/-! ## Different places -/

/-- What is put after a stem goes to the end of its last name. -/
theorem exists_last_name (stem : String) : ∃ last, ∀ suffix : String, '/' ∉ suffix.toList →
    2 < (ofText suffix).bytes.length →
    (ofText (stem ++ suffix)).steps.getLast? = some (.name (last ++ (ofText suffix).bytes)) := by
  obtain ⟨before, last, hlast⟩ := exists_last_segment (ofText stem).bytes
  refine ⟨last, ?_⟩
  intro suffix hslash hlength
  have hbytes : slash ∉ (ofText suffix).bytes := mt slash_mem_encode_iff.1 hslash
  have hname : step? (last ++ (ofText suffix).bytes) =
      some (.name (last ++ (ofText suffix).bytes)) := by
    refine step?_of_length ?_
    rw [List.length_append]
    omega
  rw [steps, segments, bytes_ofText_append, hlast _ hbytes, List.filterMap_append,
    List.filterMap_cons_some hname, List.filterMap_nil, List.getLast?_concat]

theorem not_mem_digits {c : Char} (hc : c.isDigit = false) (n : Nat) : c ∉ (Nat.repr n).toList := by
  rw [Nat.toList_repr]
  intro h
  rw [Nat.isDigit_of_mem_toDigits (by decide) (by decide) h] at hc
  cases hc

theorem toList_prebuiltEnding (abi : UInt32) :
    (prebuiltEnding abi).toList = '-' :: ((Nat.repr abi.toNat).toList ++ ".node".toList) := by
  rw [prebuiltEnding, String.toList_append, String.toList_append]
  rfl

theorem slash_not_mem_prebuiltEnding (abi : UInt32) : '/' ∉ (prebuiltEnding abi).toList := by
  rw [toList_prebuiltEnding, List.mem_cons, List.mem_append]
  rintro (h | h | h)
  · exact absurd h (by decide)
  · exact not_mem_digits (by decide) _ h
  · exact absurd h (by decide)

theorem length_prebuiltEnding (abi : UInt32) : 5 < (ofText (prebuiltEnding abi)).bytes.length := by
  have hbytes : (ofText (prebuiltEnding abi)).bytes = Text.encode ['-'] ++
      (Text.encode (Nat.repr abi.toNat).toList ++ Text.encode ".node".toList) := by
    rw [ofText, toList_prebuiltEnding, ← List.singleton_append, Text.encode_append,
      Text.encode_append]
  have hdash : (Text.encode ['-']).length = 1 := by decide
  have hnode : (Text.encode ".node".toList).length = 5 := by decide
  rw [hbytes, List.length_append, List.length_append]
  omega

theorem getLast?_steps_join {p q : Path} {c : Component} (h : q.isAbsolute = false)
    (hlast : q.steps.getLast? = some c) : (p.join q).steps.getLast? = some c := by
  rw [steps_join h, List.getLast?_append, hlast, Option.some_or]

/-- The last names of a prebuilt binary and of the output of a build are of different lengths. -/
theorem prebuilt_not_alike_built (hstem : Relative s.stem) (abi : UInt32) (profile : String) :
    ¬ (s.prebuilt abi).Alike (s.built profile) := by
  intro h
  obtain ⟨last, hlast⟩ := exists_last_name s.stem
  have hlong := length_prebuiltEnding abi
  have hnode : (ofText ".node").bytes.length = 5 := by decide
  have hprebuilt : (s.prebuilt abi).steps.getLast? =
      some (.name (last ++ (ofText (prebuiltEnding abi)).bytes)) := by
    rw [prebuilt_eq]
    refine getLast?_steps_join (hstem.prebuiltName abi).isAbsolute_eq ?_
    rw [prebuiltName_eq]
    exact hlast _ (slash_not_mem_prebuiltEnding abi) (by omega)
  have hbuilt : (s.built profile).steps.getLast? =
      some (.name (last ++ (ofText ".node").bytes)) :=
    getLast?_steps_join hstem.builtName.isAbsolute_eq (hlast ".node" (by decide) (by decide))
  rw [(alike_iff.1 h).2, hbuilt, Option.some.injEq, Component.name.injEq,
    List.append_cancel_left_eq] at hprebuilt
  rw [← hprebuilt, hnode] at hlong
  exact absurd hlong (by decide)

theorem prebuilt_not_mem_of_no_abi (hstem : Relative s.stem) (h : s.abi = none) (abi : UInt32) :
    s.prebuilt abi ∉ s.candidates := by
  intro hmem
  obtain ⟨profile, hprofile⟩ : ∃ profile, s.prebuilt abi = s.built profile := by
    simp only [candidates, h, Option.map_none, Option.toList_none, List.nil_append,
      List.mem_cons, List.not_mem_nil, or_false] at hmem
    exact hmem.elim (fun h => ⟨_, h⟩) fun h => ⟨_, h⟩
  exact prebuilt_not_alike_built hstem abi profile (congrArg Path.components hprofile)

/-- Builds with different profiles go to different directories. -/
theorem release_not_alike_debug (hstem : Relative s.stem) :
    ¬ (s.built "Release").Alike (s.built "Debug") := by
  intro h
  have hsteps (profile : String) (hp : (ofText profile).isAbsolute = false) :
      (s.built profile).steps = (s.root.join (ofText "build")).steps ++ (ofText profile).steps ++
        (ofText (builtName s.stem)).steps := by
    rw [built_eq, steps_join hstem.builtName.isAbsolute_eq, steps_join hp]
  have hsame := (alike_iff.1 h).2
  rw [hsteps _ rfl, hsteps _ rfl, List.append_cancel_right_eq, List.append_cancel_left_eq] at hsame
  exact absurd hsame (by decide)

theorem pairwise_candidates_iff :
    s.candidates.Pairwise (fun p q => ¬ p.Alike q) ↔ Relative s.stem := by
  constructor
  · intro h
    by_contra hstem
    have habsolute : ∀ profile, s.built profile = ofText (builtName s.stem) := fun profile =>
      join_of_absolute (isAbsolute_append hstem _) _
    have hbuilt := (List.pairwise_append.1 h).2.1
    rw [List.pairwise_pair, habsolute, habsolute] at hbuilt
    exact hbuilt rfl
  · intro hstem
    rw [candidates, List.pairwise_append]
    refine ⟨?_, ?_, ?_⟩
    · cases s.abi <;> simp
    · rw [List.pairwise_pair]
      exact release_not_alike_debug hstem
    · intro p hp q hq
      obtain ⟨abi, -, rfl⟩ := Option.map_eq_some_iff.1 (Option.mem_toList.1 hp)
      simp only [List.mem_cons, List.not_mem_nil, or_false] at hq
      rcases hq with rfl | rfl
      · exact prebuilt_not_alike_built hstem abi _
      · exact prebuilt_not_alike_built hstem abi _

/-! ## Different spellings -/

/-- The last dash is the one before the digits. -/
theorem dash_append_inj {as bs ds es : List Char} (hd : '-' ∉ ds) (he : '-' ∉ es)
    (h : as ++ '-' :: ds = bs ++ '-' :: es) : as = bs ∧ ds = es := by
  rcases List.append_eq_append_iff.1 h with ⟨cs, rfl, hcs⟩ | ⟨cs, rfl, hcs⟩
  · cases cs with
    | nil => exact ⟨(List.append_nil _).symm, List.cons.inj hcs |>.2⟩
    | cons c cs =>
      obtain ⟨-, rfl⟩ := List.cons.inj hcs
      simp at hd
  · cases cs with
    | nil => exact ⟨List.append_nil _, (List.cons.inj hcs).2.symm⟩
    | cons c cs =>
      obtain ⟨-, rfl⟩ := List.cons.inj hcs
      simp at he

theorem prebuiltName_inj : prebuiltName stem abi = prebuiltName stem' abi' ↔
    stem = stem' ∧ abi = abi' := by
  constructor
  · intro h
    have hlists := congrArg String.toList h
    rw [prebuiltName_eq, prebuiltName_eq, String.toList_append, String.toList_append,
      toList_prebuiltEnding, toList_prebuiltEnding, ← List.cons_append, ← List.cons_append,
      ← List.append_assoc, ← List.append_assoc, List.append_cancel_right_eq] at hlists
    obtain ⟨hstem, hdigits⟩ := dash_append_inj (not_mem_digits (by decide) _)
      (not_mem_digits (by decide) _) hlists
    have habi := congrArg (Nat.ofDigitChars 10 · 0) hdigits
    simp only [Nat.toList_repr, Nat.ofDigitChars_ten_toDigits] at habi
    exact ⟨String.toList_inj.1 hstem, UInt32.toNat_inj.1 habi⟩
  · rintro ⟨rfl, rfl⟩
    rfl

theorem prebuilt_inj (hstem : Relative stem) (hstem' : Relative stem') :
    { s with stem }.prebuilt abi = { s with stem := stem' }.prebuilt abi' ↔
      stem = stem' ∧ abi = abi' := by
  rw [← prebuiltName_inj, ← ofText_inj]
  exact join_inj (hstem.prebuiltName abi).isAbsolute_eq (hstem'.prebuiltName abi').isAbsolute_eq

/-- How the places of a search are made. A version adds one place before the others; with relative
parts every place is below the root, where its parts lead; the places are different paths exactly
when the stem is relative; and the first places of searches with different stems or versions are
spelled differently. -/
theorem candidates_construction (s : BindingSearch) :
    (∀ abi, { s with abi := none }.candidates <:+ { s with abi := some abi }.candidates ∧
      { s with abi := some abi }.candidates =
        s.prebuilt abi :: { s with abi := none }.candidates) ∧
    (Relative s.platform → Relative s.stem →
      List.Forall₂ (Below s.root) s.candidates s.parts) ∧
    (s.candidates.Pairwise (fun p q => ¬ p.Alike q) ↔ Relative s.stem) ∧
    ∀ stem stem' abi abi', Relative stem → Relative stem' → (stem, abi) ≠ (stem', abi') →
      { s with stem, abi := some abi }.candidates.head? ≠
        { s with stem := stem', abi := some abi' }.candidates.head? := by
  refine ⟨?_, below_candidates, pairwise_candidates_iff, ?_⟩
  · intro abi
    exact ⟨List.suffix_cons _ _, rfl⟩
  · intro stem stem' abi abi' hstem hstem' hne heq
    obtain ⟨rfl, rfl⟩ := (prebuilt_inj hstem hstem').1 (Option.some.inj heq)
    exact hne rfl

/-- A stem with a directory of its own and a platform with a dot and a slash at its end. -/
theorem candidates_construction_nested :
    let s : BindingSearch := ⟨.ofText "pkg", "lib/binding", "./linux/", some 115⟩
    let name (text : String) : Component := .name (Text.encode text.toList)
    Relative s.platform ∧ Relative s.stem ∧
      s.candidates.map Path.components = [
        [name "pkg", name "prebuilds", name "linux", name "lib", name "binding-115.node"],
        [name "pkg", name "build", name "Release", name "lib", name "binding.node"],
        [name "pkg", name "build", name "Debug", name "lib", name "binding.node"]] ∧
      (∀ path ∈ s.candidates, s.root.bytes <+: path.bytes ∧ s.root.Within path) ∧
      s.candidates.Pairwise (fun p q => ¬ p.Alike q) ∧
      { s with stem := "lib-1", abi := some 15 }.candidates.head? ≠
        { s with stem := "lib", abi := some 115 }.candidates.head? := by
  intro s name
  have hplatform : Relative s.platform := by decide
  have hstem : Relative s.stem := by decide
  obtain ⟨-, hbelow, hdifferent, hspelled⟩ := candidates_construction s
  refine ⟨hplatform, hstem, ?_, ?_, hdifferent.2 hstem,
    hspelled _ _ _ _ (by decide) (by decide) (by decide)⟩
  · decide +kernel
  · intro path hpath
    have hplain : ∀ parts ∈ s.parts, Component.parent ∉ parts := by decide
    have hplaces := hbelow hplatform hstem
    obtain ⟨i, hi, rfl⟩ := List.mem_iff_getElem.1 hpath
    have below := hplaces.get hi (hplaces.length_eq ▸ hi)
    exact ⟨below.prefix_bytes, below.within (hplain _ (List.getElem_mem _))⟩

end BindingSearch
end GrammarModule
