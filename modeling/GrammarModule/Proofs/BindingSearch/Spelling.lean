import GrammarModule.Proofs.BindingSearch
import GrammarModule.Proofs.Path.Components
import GrammarModule.Files.Edit
import Mathlib.Data.List.Forall2

/-!
# GrammarModule.Proofs.BindingSearch.Spelling

Searches that are the same up to the spelling of their roots. A walk along segments passes empty
ones and dots without a trace as long as another segment follows (`walk_append_congr`), so two
spellings of one path that end with the same segment lead to the same object (`node_congr`). The
places of two such searches are such spellings, one by one (`respelled_candidates`), and hence both
searches come out the same (`alike_searches_agree`).
-/

namespace GrammarModule

namespace Path

variable {p q : Path} {segments segments' : List (List UInt8)}

/-! ## Segments that lead somewhere -/

/-- The segment is no empty one and no dot. -/
def leads (segment : List UInt8) : Bool := segment ≠ [] ∧ segment ≠ [dot]

/-- The segment of a step. -/
def Component.segment : Component → List UInt8
  | .parent => [dot, dot]
  | .name bytes => bytes
  | .root | .current => []

theorem filter_leads (segments : List (List UInt8)) :
    segments.filter leads = (segments.filterMap step?).map Component.segment := by
  induction segments with
  | nil => rfl
  | cons segment segments ih =>
    by_cases hstay : segment = [] ∨ segment = [dot]
    · have hleads : ¬ leads segment = true := by simpa [leads, or_iff_not_imp_left] using hstay
      rw [List.filter_cons_of_neg hleads, List.filterMap_cons_none (step?_eq_none_iff.2 hstay), ih]
    · have hleads : leads segment = true := by simpa [leads] using hstay
      rw [List.filter_cons_of_pos hleads, ih]
      by_cases hup : segment = [dot, dot]
      · have hstep : step? segment = some .parent := by rw [step?, if_neg hstay, if_pos hup]
        rw [List.filterMap_cons_some hstep, List.map_cons, Component.segment, hup]
      · have hstep : step? segment = some (.name segment) := by
          rw [step?, if_neg hstay, if_neg hup]
        rw [List.filterMap_cons_some hstep, List.map_cons, Component.segment]

theorem filter_leads_congr (h : segments.filterMap step? = segments'.filterMap step?) :
    segments.filter leads = segments'.filter leads := by
  rw [filter_leads, filter_leads, h]

/-- Two spellings of one path whose last segments are spelled alike. -/
structure Respelled (p q : Path) : Prop where
  alike : p.Alike q
  last : p.segments.getLast? = q.segments.getLast?

theorem Respelled.join (h : p.Alike q) (file : Path) : (p.join file).Respelled (q.join file) where
  alike := h.join file
  last := by rw [getLast?_segments_join, getLast?_segments_join]

end Path

namespace FileTree

open GrammarModule.Path (leads filter_leads_congr Respelled step?)

variable {t : FileTree} {root : Node} {location : Location} {segment : List UInt8} {links : Nat}
  {segments segments' last : List (List UInt8)} {p q : Path}

/-! ## Walks -/

theorem walk_of_not_hasDirectory (hd : ¬ root.HasDirectory location) (hne : segments ≠ []) :
    walk root links location segments = .error .notDirectory := by
  obtain ⟨segment, rest, rfl⟩ := List.exists_cons_of_ne_nil hne
  rw [walk_eq, walkWith_of_not_hasDirectory hd]

/-- It is enough that walks which have passed a link can leave these segments out. -/
theorem walk_filter_of_pass (hlast : last ≠ [])
    (hpass : ∀ location target segments, pass root links location target (segments ++ last) =
      pass root links location target (segments.filter leads ++ last))
    (segments : List (List UInt8)) (location : Location) :
    walk root links location (segments ++ last) =
      walk root links location (segments.filter leads ++ last) := by
  induction segments generalizing location with
  | nil => rfl
  | cons segment segments ih =>
    by_cases hd : root.HasDirectory location
    · rcases segment_cases segment with hs | rfl | hs | hs
      · have hleads : ¬ leads segment = true := by
          rcases hs with rfl | rfl <;> decide
        rw [List.filter_cons_of_neg hleads, List.cons_append, walk_eq, walkWith_stay hd hs,
          ← walk_eq, ih]
      · have hleads : leads [Path.dot, Path.dot] = true := by decide
        rw [List.filter_cons_of_pos hleads, List.cons_append, List.cons_append, walk_eq,
          walkWith_up hd, walkWith_up hd, ← walk_eq, ih]
      · have hleads : leads segment = true := by
          have hlong : 255 < segment.length := hs
          rw [leads, decide_eq_true_eq]
          constructor <;> rintro rfl <;> simp at hlong
        rw [List.filter_cons_of_pos hleads, List.cons_append, List.cons_append, walk_eq,
          walkWith_tooLong hd hs, walkWith_tooLong hd hs]
      · have hleads : leads segment = true := by simp [leads, hs.ne_nil, hs.ne_dot]
        rw [List.filter_cons_of_pos hleads, List.cons_append, List.cons_append, walk_eq,
          walkWith_name hd hs, walkWith_name hd hs]
        cases root.get? (location ++ [segment]) with
        | none => simp [hlast]
        | some node =>
          cases node with
          | link target => exact hpass location target segments
          | file | directory | device =>
            simp only
            rw [← walk_eq, ih]
    · rw [walk_of_not_hasDirectory hd (List.append_ne_nil_of_right_ne_nil _ hlast),
        walk_of_not_hasDirectory hd (List.append_ne_nil_of_right_ne_nil _ hlast)]

theorem walk_filter (root : Node) (links : Nat) (hlast : last ≠ [])
    (segments : List (List UInt8)) (location : Location) :
    walk root links location (segments ++ last) =
      walk root links location (segments.filter leads ++ last) := by
  induction links generalizing segments location with
  | zero => exact walk_filter_of_pass hlast (fun _ _ _ => rfl) segments location
  | succ links ih =>
    refine walk_filter_of_pass hlast ?_ segments location
    intro location target segments
    rw [pass, pass, ← List.append_assoc, ← List.append_assoc, ih, ih (target.segments ++ _),
      List.filter_append, List.filter_append, List.filter_filter]
    simp only [Bool.and_self]

theorem walk_append_congr (hlast : last ≠ [])
    (h : segments.filterMap step? = segments'.filterMap step?) :
    walk root links location (segments ++ last) = walk root links location (segments' ++ last) := by
  rw [walk_filter root links hlast, walk_filter root links hlast segments', filter_leads_congr h]

/-! ## Objects -/

theorem walk_respelled (h : p.Respelled q) (location : Location) :
    walk root links location p.segments = walk root links location q.segments := by
  obtain ⟨last, hlast⟩ : ∃ last, p.segments.getLast? = some last :=
    ⟨_, List.getLast?_eq_some_getLast (Path.segmentsOf_ne_nil p.bytes)⟩
  obtain ⟨before, hp⟩ := List.getLast?_eq_some_iff.1 hlast
  obtain ⟨before', hq⟩ := List.getLast?_eq_some_iff.1 (h.last ▸ hlast)
  have hsteps := (Path.alike_iff.1 h.alike).2
  rw [Path.steps, Path.steps, hp, hq, List.filterMap_append, List.filterMap_append,
    List.append_cancel_right_eq] at hsteps
  rw [hp, hq]
  exact walk_append_congr (List.cons_ne_nil _ _) hsteps

theorem node_congr (h : p.Respelled q) (hp : p.bytes.length < pathLimit)
    (hq : q.bytes.length < pathLimit) : t.node p = t.node q := by
  have hnul : 0 ∈ p.bytes ↔ 0 ∈ q.bytes := h.alike.mem_bytes_iff (by decide) (by decide)
  by_cases hz : 0 ∈ p.bytes
  · rw [(Finds.nul hz).node_eq, (Finds.nul (hnul.1 hz)).node_eq]
  by_cases he : p.bytes = []
  · rw [(Finds.empty he).node_eq, (Finds.empty (h.alike.bytes_eq_nil_iff.1 he)).node_eq]
  have hsound : Sound p := ⟨hz, he, hp⟩
  have hsound' : Sound q := ⟨mt hnul.2 hz, mt h.alike.bytes_eq_nil_iff.2 he, hq⟩
  rw [node_of_sound hsound, node_of_sound hsound', origin, origin, h.alike.isAbsolute_eq,
    walk_respelled h]

theorem kind_congr (h : p.Respelled q) (hp : p.bytes.length < pathLimit)
    (hq : q.bytes.length < pathLimit) : t.files.kind p = t.files.kind q := by
  simp only [files, node_congr h hp hq]

end FileTree

namespace BindingSearch

variable {s t : BindingSearch} {files : Files} {paths paths' : List Path}

/-! ## Searches -/

theorem prebuilt_respelled (h : s.Alike t) (abi : UInt32) :
    (s.prebuilt abi).Respelled (t.prebuilt abi) := by
  obtain ⟨hroot, hstem, hplatform, -⟩ := h
  rw [prebuilt, prebuilt, hstem, hplatform]
  exact Path.Respelled.join ((hroot.join _).join _) _

theorem built_respelled (h : s.Alike t) (profile : String) :
    (s.built profile).Respelled (t.built profile) := by
  obtain ⟨hroot, hstem, -, -⟩ := h
  rw [built, built, hstem]
  exact Path.Respelled.join ((hroot.join _).join _) _

theorem respelled_candidates (h : s.Alike t) :
    List.Forall₂ Path.Respelled s.candidates t.candidates := by
  have hbuilt : List.Forall₂ Path.Respelled [s.built "Release", s.built "Debug"]
      [t.built "Release", t.built "Debug"] :=
    .cons (built_respelled h _) (.cons (built_respelled h _) .nil)
  rw [candidates, candidates, ← h.2.2.2]
  cases s.abi with
  | none => exact hbuilt
  | some abi => exact .cons (prebuilt_respelled h abi) hbuilt

/-- The same outcome of a search, up to the spelling of paths. -/
inductive SameOutcome : Except Failure Path → Except Failure Path → Prop
  | found {p q : Path} (h : p.Alike q) : SameOutcome (.ok p) (.ok q)
  | failed {e : StorageError} : SameOutcome (.error (.storage e)) (.error (.storage e))
  | notFound {ps qs : List Path} (h : List.Forall₂ Path.Alike ps qs) :
      SameOutcome (.error (.bindingNotFound ps)) (.error (.bindingNotFound qs))

/-- The first regular files are at corresponding places, or none is there, or the same error. -/
theorem firstRegular_congr
    (h : List.Forall₂ (fun p q => p.Alike q ∧ files.kind p = files.kind q) paths paths') :
    (∃ p q, firstRegular files paths = .ok (some p) ∧ firstRegular files paths' = .ok (some q) ∧
      p.Alike q) ∨ (firstRegular files paths = firstRegular files paths' ∧
        ∀ p, firstRegular files paths ≠ .ok (some p)) := by
  induction h with
  | nil => exact .inr ⟨rfl, by simp [firstRegular]⟩
  | @cons p q paths paths' hpq _ ih =>
    obtain ⟨halike, hkind⟩ := hpq
    rcases files.look p with h | h | ⟨e, h, he⟩
    · have h' : files.PassedOver q := by rwa [Files.PassedOver, ← hkind]
      rw [firstRegular_of_passedOver h, firstRegular_of_passedOver h']
      exact ih
    · rw [firstRegular_of_regular h, firstRegular_of_regular (hkind ▸ h)]
      exact .inl ⟨p, q, rfl, rfl, halike⟩
    · rw [firstRegular_of_failing h he, firstRegular_of_failing (hkind ▸ h) he]
      exact .inr ⟨rfl, by simp⟩

theorem locate_congr_of_kind
    (h : List.Forall₂ (fun p q => p.Alike q ∧ files.kind p = files.kind q) s.candidates
      t.candidates) : SameOutcome (s.locate files) (t.locate files) := by
  have halike : List.Forall₂ Path.Alike s.candidates t.candidates := h.imp fun _ _ h => h.1
  rcases firstRegular_congr h with ⟨p, q, hs, ht, hpq⟩ | ⟨heq, hnone⟩
  · rw [locate, locate, hs, ht]
    exact .found hpq
  · rw [locate, locate, ← heq]
    cases hfirst : firstRegular files s.candidates with
    | error e => exact .failed
    | ok path? =>
      cases path? with
      | none => exact .notFound halike
      | some path => exact absurd hfirst (hnone path)

theorem same_kinds {tree : FileTree} (h : List.Forall₂ Path.Respelled paths paths')
    (hshort : ∀ path ∈ paths ++ paths', path.bytes.length < FileTree.pathLimit) :
    List.Forall₂ (fun p q => p.Alike q ∧ tree.files.kind p = tree.files.kind q) paths paths' := by
  induction h with
  | nil => exact .nil
  | @cons p q paths paths' hpq _ ih =>
    refine .cons ⟨hpq.alike, FileTree.kind_congr hpq (hshort p (by simp)) (hshort q (by simp))⟩ ?_
    refine ih fun path hpath => hshort path ?_
    rcases List.mem_append.1 hpath with hpath | hpath <;> simp [hpath]

/-- Searches that differ in the spelling of their roots alone search the same places in the same
order, and come out the same in every file tree, as long as no place is spelled too long. -/
theorem alike_searches_agree (h : s.Alike t) :
    List.Forall₂ Path.Alike s.candidates t.candidates ∧
    ∀ tree : FileTree,
      (∀ path ∈ s.candidates ++ t.candidates, path.bytes.length < FileTree.pathLimit) →
      SameOutcome (s.locate tree.files) (t.locate tree.files) := by
  have hplaces := respelled_candidates h
  refine ⟨hplaces.imp fun _ _ h => h.alike, ?_⟩
  intro tree hshort
  exact locate_congr_of_kind (same_kinds hplaces hshort)

/-- Slashes and dots in a root, with a version and without. -/
theorem alike_searches_agree_slashes :
    let s (root : String) : BindingSearch :=
      { (default : BindingSearch) with root := .ofText root, abi := some 115 }
    (s "a//b").Alike (s "a/./b/") ∧
      List.Forall₂ Path.Alike (s "a//b").candidates (s "a/./b/").candidates ∧
      SameOutcome ((s "a//b").locate FileTree.fresh.files)
        ((s "a/./b/").locate FileTree.fresh.files) := by
  intro s
  have h : (s "a//b").Alike (s "a/./b/") := by decide
  obtain ⟨hplaces, hsame⟩ := alike_searches_agree h
  refine ⟨h, hplaces, hsame _ ?_⟩
  decide +kernel

end BindingSearch
end GrammarModule
