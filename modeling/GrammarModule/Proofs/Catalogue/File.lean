import GrammarModule.Catalogue.File
import GrammarModule.Files.Tree
import GrammarModule.Proofs.Files.Contents
import GrammarModule.Proofs.Text.Utf8

/-!
# GrammarModule.Proofs.Catalogue.File

Catalogues from files, by what is at the path. A file that cannot be read, or whose bytes are no
text, is a failure of the storage; a text is loaded as it is parsed, refusals included; and nothing
is missing but what cannot be found (`Loads`, `load_agrees_with_parse`).
-/

namespace GrammarModule
namespace Catalogue

variable {files : Files} {path : Path} {bytes : List UInt8} {source : String} {e : StorageError}
  {r : Except Failure (Option Catalogue)}

/-- What loading gives, by what reading the path gives. -/
inductive Loads (files : Files) (path : Path) : Except Failure (Option Catalogue) → Prop
  | missing (h : files.contents path = .error .notFound) : Loads files path (.ok none)
  | failed {e : StorageError} (h : files.contents path = .error e) (he : e ≠ .notFound) :
      Loads files path (.error (.storage e))
  | illFormed {bytes : List UInt8} (h : files.contents path = .ok bytes)
      (hb : ∀ source : String, bytes ≠ Text.encode source.toList) :
      Loads files path (.error (.storage .notUtf8))
  | loaded {source : String} {c : Catalogue}
      (h : files.contents path = .ok (Text.encode source.toList)) (hc : parse source = .ok c) :
      Loads files path (.ok (some c))
  | malformed {source : String} {e : Json.Error}
      (h : files.contents path = .ok (Text.encode source.toList))
      (he : parse source = .error (.malformedMetadata e)) :
      Loads files path (.error (.malformedMetadata e))

theorem load_of_missing (h : files.contents path = .error .notFound) :
    load files path = .ok none := by
  rw [load, Files.text?, h]

theorem load_of_failed (h : files.contents path = .error e) (he : e ≠ .notFound) :
    load files path = .error (.storage e) := by
  have htext : files.text? path = .error e := by
    rw [Files.text?, h]
    split
    · next heq => cases heq; exact absurd rfl he
    · next heq => cases heq; rfl
    · next heq => cases heq
  rw [load, htext]

theorem load_of_illFormed (h : files.contents path = .ok bytes)
    (hb : ∀ source : String, bytes ≠ Text.encode source.toList) :
    load files path = .error (.storage .notUtf8) := by
  have hdecode : Text.decode? bytes = none := by
    rw [Option.eq_none_iff_forall_ne_some]
    intro text htext
    refine hb (String.ofList text) ?_
    rw [String.toList_ofList]
    exact Text.decode?_eq_some_iff.1 htext
  have htext : files.text? path = .error .notUtf8 := by
    simp only [Files.text?, h, hdecode]
  rw [load, htext]

/-- A text is loaded as it is parsed. -/
theorem load_of_text (h : files.contents path = .ok (Text.encode source.toList)) :
    load files path = (parse source).map some := by
  have htext : files.text? path = .ok (some source) := by
    simp only [Files.text?, h, Text.decode?_encode, String.ofList_toList]
  rw [load, htext]

theorem exists_text_or (bytes : List UInt8) :
    (∃ source : String, bytes = Text.encode source.toList) ∨
      ∀ source : String, bytes ≠ Text.encode source.toList := by
  by_cases h : ∃ source : String, bytes = Text.encode source.toList
  · exact .inl h
  · exact .inr fun source heq => h ⟨source, heq⟩

/-- Parsing refuses a text as metadata and for no other cause. -/
theorem parse_cases (source : String) :
    (∃ c, parse source = .ok c) ∨ ∃ e, parse source = .error (.malformedMetadata e) := by
  rw [parse]
  cases codec.parse source with
  | ok c => exact .inl ⟨c, rfl⟩
  | error e => exact .inr ⟨e, rfl⟩

theorem Loads.load_eq (h : Loads files path r) : load files path = r := by
  cases h with
  | missing h => exact load_of_missing h
  | failed h he => exact load_of_failed h he
  | illFormed h hb => exact load_of_illFormed h hb
  | loaded h hc =>
    rw [load_of_text h, hc]
    rfl
  | malformed h he =>
    rw [load_of_text h, he]
    rfl

theorem loads_load (files : Files) (path : Path) : Loads files path (load files path) := by
  cases h : files.contents path with
  | error e =>
    by_cases he : e = .notFound
    · subst he
      rw [load_of_missing h]
      exact .missing h
    · rw [load_of_failed h he]
      exact .failed h he
  | ok bytes =>
    rcases exists_text_or bytes with ⟨source, rfl⟩ | hb
    · rcases parse_cases source with ⟨c, hc⟩ | ⟨e, he⟩
      · rw [load_of_text h, hc]
        exact .loaded h hc
      · rw [load_of_text h, he]
        exact .malformed h he
    · rw [load_of_illFormed h hb]
      exact .illFormed h hb

theorem load_eq_iff : load files path = r ↔ Loads files path r := by
  constructor
  · rintro rfl
    exact loads_load files path
  · exact Loads.load_eq

/-! ## File trees -/

/-- How loading from a file tree agrees with parsing what the tree holds. -/
structure LoadAgrees (t : FileTree) (path : Path) : Prop where
  missing : load t.files path = .ok none ↔ t.Finds path (.error .notFound)
  storage : ∀ e, load t.files path = .error (.storage e) ↔
    (t.Finds path (.error e) ∧ e ≠ .notFound) ∨
    (e = .isDirectory ∧ ∃ entries, t.Finds path (.ok (.directory entries))) ∨
    (e = .notUtf8 ∧ ∃ bytes, t.Holds path bytes ∧
      ∀ source : String, bytes ≠ Text.encode source.toList)
  loaded : ∀ c, load t.files path = .ok (some c) ↔
    ∃ source : String, t.Holds path (Text.encode source.toList) ∧ parse source = .ok c
  /-- The cause and its place are those of parsing. -/
  malformed : ∀ e, load t.files path = .error (.malformedMetadata e) ↔
    ∃ source : String, t.Holds path (Text.encode source.toList) ∧
      parse source = .error (.malformedMetadata e)
  one : load t.files path = .ok none ∨ (∃ e, load t.files path = .error (.storage e)) ∨
    (∃ c, load t.files path = .ok (some c)) ∨
    ∃ e, load t.files path = .error (.malformedMetadata e)
  /-- What is there is not missing, be it empty or ill formed. -/
  present : ∀ node, t.Finds path (.ok node) → load t.files path ≠ .ok none
  reasons : ∀ e, load t.files path = .error (.storage e) →
    e ∈ [.notDirectory, .nameTooLong, .tooManyLinks, .nulInName, .isDirectory, .notUtf8]

theorem contents_eq_notFound_iff {t : FileTree} :
    t.files.contents path = .error .notFound ↔ t.Finds path (.error .notFound) := by
  rw [FileTree.contents_eq_error_iff]
  simp

theorem storage_iff (t : FileTree) (path : Path) (e : StorageError) :
    load t.files path = .error (.storage e) ↔
      (t.Finds path (.error e) ∧ e ≠ .notFound) ∨
      (e = .isDirectory ∧ ∃ entries, t.Finds path (.ok (.directory entries))) ∨
      (e = .notUtf8 ∧ ∃ bytes, t.Holds path bytes ∧
        ∀ source : String, bytes ≠ Text.encode source.toList) := by
  rw [load_eq_iff]
  constructor
  · intro h
    cases h with
    | failed h he =>
      rcases FileTree.contents_eq_error_iff.1 h with h | h
      · exact .inl ⟨h, he⟩
      · exact .inr (.inl h)
    | illFormed h hb => exact .inr (.inr ⟨rfl, _, FileTree.contents_eq_ok_iff.1 h, hb⟩)
  · rintro (⟨h, he⟩ | ⟨rfl, h⟩ | ⟨rfl, bytes, h, hb⟩)
    · exact .failed (FileTree.contents_eq_error_iff.2 (.inl h)) he
    · exact .failed (FileTree.contents_eq_error_iff.2 (.inr ⟨rfl, h⟩)) (by decide)
    · exact .illFormed (FileTree.contents_eq_ok_iff.2 h) hb

/-- Whatever there is at a path, loading it is not like loading nothing. -/
theorem load_ne_missing {t : FileTree} {node : Node} (h : t.Finds path (.ok node)) :
    load t.files path ≠ .ok none := by
  intro hload
  cases load_eq_iff.1 hload with
  | missing hmissing =>
    have hfound := FileTree.node_eq_iff.2 h
    rw [FileTree.node_eq_iff.2 (contents_eq_notFound_iff.1 hmissing)] at hfound
    cases hfound

theorem load_reason {t : FileTree} (h : load t.files path = .error (.storage e)) :
    e ∈ [.notDirectory, .nameTooLong, .tooManyLinks, .nulInName, .isDirectory, .notUtf8] := by
  rcases (storage_iff t path e).1 h with ⟨hfinds, he⟩ | ⟨rfl, -⟩ | ⟨rfl, -⟩
  · rcases List.mem_cons.1 hfinds.reason with rfl | hreason
    · exact absurd rfl he
    · exact List.mem_append_left [.isDirectory, .notUtf8] hreason
  · decide
  · decide

theorem loadAgrees (t : FileTree) (path : Path) : LoadAgrees t path where
  missing := by
    rw [load_eq_iff, ← contents_eq_notFound_iff]
    constructor
    · intro h
      cases h with
      | missing h => exact h
    · exact .missing
  storage := storage_iff t path
  loaded c := by
    rw [load_eq_iff]
    constructor
    · intro h
      cases h with
      | loaded h hc => exact ⟨_, FileTree.contents_eq_ok_iff.1 h, hc⟩
    · rintro ⟨source, h, hc⟩
      exact .loaded (FileTree.contents_eq_ok_iff.2 h) hc
  malformed e := by
    rw [load_eq_iff]
    constructor
    · intro h
      cases h with
      | malformed h he => exact ⟨_, FileTree.contents_eq_ok_iff.1 h, he⟩
    · rintro ⟨source, h, he⟩
      exact .malformed (FileTree.contents_eq_ok_iff.2 h) he
  one := by
    have h := loads_load t.files path
    generalize load t.files path = r at h
    cases h with
    | missing => exact .inl rfl
    | failed | illFormed => exact .inr (.inl ⟨_, rfl⟩)
    | loaded => exact .inr (.inr (.inl ⟨_, rfl⟩))
    | malformed => exact .inr (.inr (.inr ⟨_, rfl⟩))
  present _ := load_ne_missing
  reasons _ := load_reason

/-- Loading a path finds nothing, fails with the storage, or agrees with parsing the text that the
path holds; for file trees and, by what reading gives, for every file system. -/
theorem load_agrees_with_parse (path : Path) :
    (∀ t : FileTree, LoadAgrees t path) ∧
    ∀ (files : Files) (r : Except Failure (Option Catalogue)),
      load files path = r ↔ Loads files path r :=
  ⟨fun t => loadAgrees t path, fun _ _ => load_eq_iff⟩

end Catalogue
end GrammarModule
