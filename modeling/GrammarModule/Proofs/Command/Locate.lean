import GrammarModule.Command.Report
import GrammarModule.Files.Edit
import GrammarModule.Proofs.BindingSearch
import GrammarModule.Proofs.Command.Options
import GrammarModule.Proofs.Json.Pretty
import GrammarModule.Proofs.Path

/-!
# GrammarModule.Proofs.Command.Locate

The answer to a command line that asks where the binding is. It says what the search gives: a place
that cannot be looked at is an error, and so is a root that is no text; otherwise the answer is one
document, and reading it gives back the places that are searched and the one that was found
(`locate_reports`).
-/

namespace GrammarModule

namespace BindingSearch

variable {s : BindingSearch}

/-! ## Places as texts -/

theorem isSome_text?_built (hs : s.stem = usualStem) {profile : String}
    (hp : (Path.ofText profile).isAbsolute = false) :
    (s.built profile).text?.isSome = s.root.text?.isSome := by
  have hbuild : (Path.ofText "build").isAbsolute = false := by rfl
  have hfile : (Path.ofText (usualStem ++ ".node")).isAbsolute = false := by rfl
  rw [built, hs, Path.isSome_text?_join_of_relative hfile, Path.isSome_text?_join_of_relative hp,
    Path.isSome_text?_join_of_relative hbuild]

theorem isSome_text?_of_mem (hs : s.stem = usualStem) (hr : s.root.text?.isSome = true)
    {path : Path} (hpath : path ∈ s.candidates) : path.text?.isSome = true := by
  rcases List.mem_append.1 hpath with hpath | hpath
  · obtain ⟨abi, -, rfl⟩ := Option.map_eq_some_iff.1 (Option.mem_toList.1 hpath)
    exact Path.isSome_text?_join (Path.isSome_text?_join (Path.isSome_text?_join hr _) _) _
  · rcases List.mem_cons.1 hpath with rfl | hpath
    · rw [isSome_text?_built hs rfl, hr]
    · obtain rfl := List.mem_singleton.1 hpath
      rw [isSome_text?_built hs rfl, hr]

end BindingSearch

namespace Command
namespace Report

open BindingSearch

variable {files : Files} {s : BindingSearch} {path : Path} {e : StorageError}
  {texts : List String} {paths : List Path} {root : String}

theorem pathValue?_eq (path : Path) : pathValue? path = path.text?.map .text := rfl

theorem mapM_pathValue?_of_texts (h : paths.map Path.text? = texts.map some) :
    paths.mapM pathValue? = some (texts.map .text) := by
  induction paths generalizing texts with
  | nil =>
    obtain rfl : texts = [] := by simpa using h.symm
    rfl
  | cons path paths ih =>
    cases texts with
    | nil => cases h
    | cons text texts =>
      obtain ⟨hpath, hpaths⟩ := List.cons.inj h
      rw [List.mapM_cons, pathValue?_eq, hpath, ih hpaths]
      rfl

theorem mapM_pathValue?_of_none (hpath : path ∈ paths) (h : path.text? = none) :
    paths.mapM pathValue? = none := by
  induction paths with
  | nil => cases hpath
  | cons first paths ih =>
    rw [List.mapM_cons, pathValue?_eq]
    rcases List.mem_cons.1 hpath with rfl | hpath
    · rw [h]
      rfl
    · rw [ih hpath]
      cases first.text? <;> rfl

theorem exists_texts (h : ∀ path ∈ paths, path.text?.isSome = true) :
    ∃ texts : List String, paths.map Path.text? = texts.map some := by
  induction paths with
  | nil => exact ⟨[], rfl⟩
  | cons path paths ih =>
    obtain ⟨hpath, hpaths⟩ := List.forall_mem_cons.1 h
    obtain ⟨text, htext⟩ := Option.isSome_iff_exists.1 hpath
    obtain ⟨texts, htexts⟩ := ih hpaths
    exact ⟨text :: texts, by rw [List.map_cons, htext, htexts, List.map_cons]⟩

/-! ## The answer -/

/-- The document that shows places and the one that was found. -/
def placesValue (texts : List String) (found : Json.Value) : Json.Value :=
  .object [("candidates", .list (texts.map .text)), ("found", found)]

/-- What a search found, as the document shows it. -/
inductive Shows (files : Files) (s : BindingSearch) : Json.Value → Prop
  | found {path : Path} {text : String} (h : s.locate files = .ok path)
      (hpath : path ∈ s.candidates) (htext : path.text? = some text) : Shows files s (.text text)
  | notFound (h : s.locate files = .error (.bindingNotFound s.candidates)) : Shows files s .null

theorem Shows.plain {found : Json.Value} (h : Shows files s found) :
    (placesValue texts found).Plain Json.depthLimit := by
  intro member hmember
  rcases List.mem_cons.1 hmember with rfl | hmember
  · intro item hitem
    obtain ⟨text, -, rfl⟩ := List.mem_map.1 hitem
    trivial
  · obtain rfl := List.mem_singleton.1 hmember
    cases h <;> trivial

theorem mem_candidates_of_locate (h : s.locate files = .ok path) : path ∈ s.candidates := by
  obtain ⟨before, after, hsplit, -⟩ := ((firstMatch files s).found path).1 h |>.1
  rw [hsplit]
  simp

theorem ofLocate_of_storage (h : s.locate files = .error (.storage e)) :
    ofLocate files s = failure "failed to probe binding locations" (causesOf (.storage e)) := by
  rw [ofLocate, h]

theorem ofLocate_of_shows {found : Json.Value} (h : Shows files s found)
    (htexts : s.candidates.map Path.text? = texts.map some) :
    ofLocate files s = Report.document 0 (placesValue texts found) := by
  cases h with
  | found h hpath htext =>
    rw [ofLocate, h]
    simp only [pathValue?_eq, htext, Option.map_some, mapM_pathValue?_of_texts htexts, placesValue]
  | notFound h =>
    rw [ofLocate, h]
    simp only [mapM_pathValue?_of_texts htexts, placesValue]

theorem ofLocate_of_not_text (h : ∀ e, s.locate files ≠ .error (.storage e))
    (hpath : path ∈ s.candidates) (htext : path.text? = none) :
    ofLocate files s = failure "path contains invalid UTF-8 characters" [] := by
  rw [ofLocate]
  split
  · next e he => exact absurd he (h e)
  · simp only [mapM_pathValue?_of_none hpath htext]

/-- How a search is answered. -/
structure Answers (files : Files) (s : BindingSearch) (report : Report) : Prop where
  failed : ∀ e, s.locate files = .error (.storage e) → report.exitCode = 1 ∧ report.output = "" ∧
    ∃ causes, report.error = some ("Error: failed to probe binding locations" ++ causes)
  notText : (∀ e, s.locate files ≠ .error (.storage e)) → s.root.text? = none →
    report.exitCode = 1 ∧ report.output = ""
  document : (∀ e, s.locate files ≠ .error (.storage e)) → s.root.text?.isSome = true →
    report.exitCode = 0 ∧ report.error = none ∧ ∃ document, ∃ texts : List String, ∃ found,
      report.output = document ++ "\n" ∧
      Json.Value.parse document = .ok (placesValue texts found) ∧
      s.candidates.map Path.text? = texts.map some ∧ Shows files s found

theorem exists_shows (hs : s.stem = usualStem) (h : ∀ e, s.locate files ≠ .error (.storage e))
    (hr : s.root.text?.isSome = true) : ∃ found, Shows files s found := by
  rcases (firstMatch files s).one with ⟨path, hpath⟩ | ⟨e, he⟩ | hnone
  · have hmem := mem_candidates_of_locate hpath
    obtain ⟨text, htext⟩ := Option.isSome_iff_exists.1 (isSome_text?_of_mem hs hr hmem)
    exact ⟨_, .found hpath hmem htext⟩
  · exact absurd he (h e)
  · exact ⟨_, .notFound hnone⟩

theorem answers_ofLocate (hs : s.stem = usualStem) (files : Files) :
    Answers files s (ofLocate files s) where
  failed e he := by
    rw [ofLocate_of_storage he]
    refine ⟨rfl, rfl, causeLines (causesOf (.storage e)) ++ "\n", ?_⟩
    have hmessage : "Error: " ++ "failed to probe binding locations" =
        "Error: failed to probe binding locations" := by decide
    rw [failure, String.append_assoc, hmessage]
  notText h hr := by
    have hmem : s.built "Release" ∈ s.candidates := by simp [candidates]
    have htext : (s.built "Release").text? = none := by
      have hsome : (s.built "Release").text?.isSome = s.root.text?.isSome :=
        isSome_text?_built hs rfl
      rw [hr] at hsome
      simpa using hsome
    rw [ofLocate_of_not_text h hmem htext]
    exact ⟨rfl, rfl⟩
  document h hr := by
    obtain ⟨found, hfound⟩ := exists_shows hs h hr
    obtain ⟨texts, htexts⟩ := exists_texts fun path hpath => isSome_text?_of_mem hs hr hpath
    rw [ofLocate_of_shows hfound htexts]
    exact ⟨rfl, rfl, (placesValue texts found).prettyText, texts, found, rfl,
      Json.Value.parse_prettyText hfound.plain, htexts, hfound⟩

end Report

/-- The answer to an accepted command line is about the search that its options, the environment
and the defaults describe, and says what that search gives. -/
theorem locate_reports {files : Files} {env : Environment} {arguments : List (List UInt8)}
    {search : BindingSearch} (h : Request.read env arguments = .ok (.locate search)) :
    (∃ leading rest found more,
      readArguments leadingGrammar (fun word => (Verb.ofBytes? word).isSome) .empty none arguments =
        .ok (leading, Text.encode Verb.locate.word.toList :: rest) ∧
      readArguments Verb.locate.grammar (fun _ => false) .empty none rest = .ok (found, more) ∧
      Effective env found search) ∧
    Report.Answers files search (run files env arguments) := by
  have hlocate := locate_of_read h
  refine ⟨hlocate, ?_⟩
  obtain ⟨_, _, _, _, _, _, heffective⟩ := hlocate
  rw [run, h]
  exact Report.answers_ofLocate heffective.stem files

/-- A search in an empty tree, the version being set in the environment. -/
theorem locate_reports_fresh :
    let env : Environment := ⟨none, some (Text.encode "115".toList)⟩
    let arguments := [Text.encode "locate".toList, Text.encode "-ppkg".toList]
    let search : BindingSearch :=
      { (default : BindingSearch) with platform := "pkg", abi := some 115 }
    Request.read env arguments = .ok (.locate search) ∧
      Report.Answers FileTree.fresh.files search (run FileTree.fresh.files env arguments) := by
  intro env arguments search
  have h : Request.read env arguments = .ok (.locate search) := by decide +kernel
  exact ⟨h, (locate_reports h).2⟩

end Command
end GrammarModule
