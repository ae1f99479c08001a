import GrammarModule.Command.Report
import GrammarModule.Proofs.Catalogue.Rendering
import GrammarModule.Proofs.Command.Options
import GrammarModule.Proofs.Json.Pretty
import GrammarModule.Proofs.Text.Utf8

/-!
# GrammarModule.Proofs.Command.Kinds

The answer to a command line that asks for the kinds in a file, and the one for the named kinds
alone. Whether there is an answer depends on the file and not on the kinds that are asked for: it
is a document when the file holds a catalogue, and else an error that is the same for both
(`Report.Agree`, `kinds_reports`).
-/

namespace GrammarModule

/-! ## The size of a catalogue -/

namespace Catalogue

/-- A text of a catalogue has more characters than the catalogue has entries. -/
theorem Rendering.size_lt {c : Catalogue} {source : String} (h : c.Rendering source) :
    c.size < source.toList.length := by
  obtain ⟨b, t, b', -, ⟨texts, htexts, r, rfl, hr⟩, -, hsource⟩ := h
  have hlength : c.entries.length = texts.length := htexts.length_eq
  have hitems := hr.length_le
  simp only [if_true] at hitems
  rw [hsource, size, hlength]
  simp only [List.length_append, List.length_cons]
  omega

theorem size_lt_of_load {files : Files} {path : Path} {c : Catalogue} {bytes : List UInt8}
    (h : load files path = .ok (some c)) (hbytes : files.contents path = .ok bytes) :
    c.size < bytes.length := by
  rw [load, Files.text?, hbytes] at h
  simp only at h
  cases hdecode : Text.decode? bytes with
  | none =>
    rw [hdecode] at h
    cases h
  | some text =>
    rw [hdecode] at h
    simp only at h
    cases hparse : parse (String.ofList text) with
    | error e =>
      rw [hparse] at h
      cases h
    | ok found =>
      rw [hparse] at h
      cases h
      have hsize := (parse_eq_ok_iff.1 hparse).size_lt
      rw [String.toList_ofList] at hsize
      rw [Text.encode_of_decode? hdecode]
      exact Nat.lt_of_lt_of_le hsize (Text.length_le_encode text)

end Catalogue

namespace Command
namespace Report

variable {files : Files} {path : Path} {c : Catalogue}

/-! ## The answer -/

/-- The document that shows how many entries and how many supertypes there are, and some kinds. -/
def kindsValue (c : Catalogue) (kinds : List String) : Json.Value :=
  .object [("count", .number (.whole c.entries.length)),
    ("supertypes", .number (.whole (c.entries.countP fun e => e.subtypes.isSome))),
    ("kinds", .list (kinds.map .text))]

/-- The kinds that are asked for, in written order. -/
def listedKinds (c : Catalogue) (namedOnly : Bool) : List String :=
  (if namedOnly then c.named else c.entries).map (·.kind)

theorem plain_kindsValue (hc : c.size < UInt64.size) (kinds : List String) :
    (kindsValue c kinds).Plain Json.depthLimit := by
  intro member hmember
  simp only [List.mem_cons, List.not_mem_nil, or_false] at hmember
  rcases hmember with rfl | rfl | rfl
  · exact ⟨_, hc, rfl⟩
  · exact ⟨_, Nat.lt_of_le_of_lt List.countP_le_length hc, rfl⟩
  · intro item hitem
    obtain ⟨kind, -, rfl⟩ := List.mem_map.1 hitem
    trivial

theorem ofKinds_of_loaded (h : Catalogue.load files path = .ok (some c)) (namedOnly : Bool) :
    ofKinds files path namedOnly = document 0 (kindsValue c (listedKinds c namedOnly)) := by
  have hsupertypes : c.supertypes.length = c.entries.countP fun e => e.subtypes.isSome :=
    List.countP_eq_length_filter.symm
  rw [ofKinds, h]
  simp only [kindsValue, listedKinds, List.map_map, hsupertypes]
  rfl

theorem parse_output_document {v : Json.Value} (h : v.Plain Json.depthLimit) (exitCode : Nat) :
    Json.Value.parse (document exitCode v).output = .ok v := by
  have hblanks : Json.Blanks ['\n'] := by simp [Json.Blanks]
  exact Json.Value.parse_document (Json.Value.document_prettyText h hblanks)

theorem exists_ofKinds_eq_failure (h : ¬∃ c, Catalogue.load files path = .ok (some c)) :
    ∃ message causes, ∀ namedOnly, ofKinds files path namedOnly = failure message causes := by
  cases hload : Catalogue.load files path with
  | error f =>
    refine ⟨"failed to read " ++ path.shown, causesOf f, fun namedOnly => ?_⟩
    rw [ofKinds, hload]
  | ok loaded =>
    cases loaded with
    | none =>
      refine ⟨path.shown ++ " does not exist", [], fun namedOnly => ?_⟩
      rw [ofKinds, hload]
    | some c => exact absurd ⟨c, hload⟩ h

/-- How the answers about all kinds in a file and about the named ones agree. -/
structure Agree (files : Files) (path : Path) (all named : Report) : Prop where
  all_iff : all.exitCode = 0 ↔ ∃ c, Catalogue.load files path = .ok (some c)
  named_iff : named.exitCode = 0 ↔ ∃ c, Catalogue.load files path = .ok (some c)
  failed : (¬∃ c, Catalogue.load files path = .ok (some c)) →
    all = named ∧ all.exitCode = 1 ∧ all.output = "" ∧ ∃ text, all.error = some text
  loaded (c : Catalogue) : Catalogue.load files path = .ok (some c) → c.size < UInt64.size →
    Json.Value.parse all.output = .ok (kindsValue c (c.entries.map (·.kind))) ∧
    Json.Value.parse named.output =
      .ok (kindsValue c ((c.entries.filter (·.named)).map (·.kind)))
  /-- Every file of a size that 64 bits can count is small enough for that. -/
  size (c : Catalogue) (bytes : List UInt8) : Catalogue.load files path = .ok (some c) →
    files.contents path = .ok bytes → c.size < bytes.length

theorem exitCode_ofKinds_iff (namedOnly : Bool) :
    (ofKinds files path namedOnly).exitCode = 0 ↔
      ∃ c, Catalogue.load files path = .ok (some c) := by
  constructor
  · intro h
    by_contra hload
    obtain ⟨message, causes, hfailure⟩ := exists_ofKinds_eq_failure hload
    rw [hfailure] at h
    cases h
  · rintro ⟨c, hload⟩
    rw [ofKinds_of_loaded hload]
    rfl

theorem agree (files : Files) (path : Path) :
    Agree files path (ofKinds files path false) (ofKinds files path true) where
  all_iff := exitCode_ofKinds_iff false
  named_iff := exitCode_ofKinds_iff true
  failed h := by
    obtain ⟨message, causes, hfailure⟩ := exists_ofKinds_eq_failure h
    rw [hfailure, hfailure]
    exact ⟨rfl, rfl, rfl, _, rfl⟩
  loaded c h hc := by
    rw [ofKinds_of_loaded h, ofKinds_of_loaded h]
    exact ⟨parse_output_document (plain_kindsValue hc _) 0,
      parse_output_document (plain_kindsValue hc _) 0⟩
  size _ _ := Catalogue.size_lt_of_load

end Report

/-! ## Command lines -/

variable {env : Environment} {path : Path}

theorem bytes_ne_nil_of_read {arguments : List (List UInt8)} {namedOnly : Bool}
    (h : Request.read env arguments = .ok (.kinds path namedOnly)) : path.bytes ≠ [] := by
  obtain ⟨_, rest, found, more, verb, -, hfound, hmakes⟩ := verb_of_read h
  cases verb with
  | record => cases hmakes
  | locate =>
    obtain ⟨_, -, hmakes⟩ := Json.bind_eq_ok_iff.1 hmakes
    obtain ⟨_, -, hmakes⟩ := Json.bind_eq_ok_iff.1 hmakes
    cases hmakes
  | nodeTypes =>
    obtain ⟨operand, hoperand, hpath⟩ := hmakes
    cases hpath
    exact readArguments_operand_ne_nil hfound operand (List.mem_of_mem_head? hoperand)
  | help => exact hmakes.elim

/-- A command line that asks for the kinds in a file, whatever its path looks like. -/
def kindsArguments (path : Path) (namedOnly : Bool) : List (List UInt8) :=
  Text.encode Verb.nodeTypes.word.toList ::
    (if namedOnly then [Text.encode "--named".toList] else []) ++ [[dash, dash], path.bytes]

theorem read_kindsArguments (env : Environment) (hpath : path.bytes ≠ []) (namedOnly : Bool) :
    Request.read env (kindsArguments path namedOnly) = .ok (.kinds path namedOnly) := by
  obtain ⟨bytes⟩ := path
  obtain ⟨first, rest, rfl⟩ := List.exists_cons_of_ne_nil hpath
  cases namedOnly <;> rfl

/-- Every path but the empty one can be asked about, for all kinds and for the named ones, and
however that is done, both answers agree. -/
theorem kinds_reports (files : Files) (env : Environment) (path : Path) :
    (∀ namedOnly, (∃ arguments, Request.read env arguments = .ok (.kinds path namedOnly)) ↔
      path.bytes ≠ []) ∧
    ∀ all named, Request.read env all = .ok (.kinds path false) →
      Request.read env named = .ok (.kinds path true) →
      Report.Agree files path (run files env all) (run files env named) := by
  refine ⟨fun namedOnly => ⟨?_, ?_⟩, ?_⟩
  · rintro ⟨arguments, h⟩
    exact bytes_ne_nil_of_read h
  · intro hpath
    exact ⟨kindsArguments path namedOnly, read_kindsArguments env hpath namedOnly⟩
  · intro all named hall hnamed
    rw [run, run, hall, hnamed]
    exact Report.agree files path

/-- A file with a supertype that has no subtypes, and a token that is a quotation mark. -/
theorem kinds_reports_two :
    let entry (kind : String) (named : Bool) (subtypes : Option (List KindRef)) : KindEntry :=
      ⟨kind, named, ∅, none, subtypes⟩
    let c : Catalogue := ⟨[entry "expression" true (some []), entry "\"" false none]⟩
    let files : Files := ⟨fun _ => .ok .regular, fun _ => .ok (Text.encode c.render.toList)⟩
    let env : Environment := ⟨none, none⟩
    let arguments := [Text.encode "node-types".toList, Text.encode "kinds.json".toList]
    let all := run files env arguments
    let named := run files env (arguments ++ [Text.encode "--named".toList])
    let value (kinds : List String) : Json.Value := .object [("count", .number (.whole 2)),
      ("supertypes", .number (.whole 1)), ("kinds", .list (kinds.map .text))]
    all.exitCode = 0 ∧ named.exitCode = 0 ∧
    Json.Value.parse all.output = .ok (value ["expression", "\""]) ∧
    Json.Value.parse named.output = .ok (value ["expression"]) := by
  intro entry c files env arguments all named value
  have hall : Request.read env arguments = .ok (.kinds (.ofText "kinds.json") false) := by rfl
  have hnamed : Request.read env (arguments ++ [Text.encode "--named".toList]) =
      .ok (.kinds (.ofText "kinds.json") true) := by rfl
  have hload : Catalogue.load files (.ofText "kinds.json") = .ok (some c) := by decide +kernel
  have hagree := (kinds_reports files env (.ofText "kinds.json")).2 _ _ hall hnamed
  obtain ⟨hparse, hparse'⟩ := hagree.loaded c hload (by decide)
  exact ⟨hagree.all_iff.2 ⟨c, hload⟩, hagree.named_iff.2 ⟨c, hload⟩, hparse, hparse'⟩

end Command
end GrammarModule
