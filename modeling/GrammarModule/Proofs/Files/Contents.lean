import GrammarModule.Proofs.Files.Walk
import GrammarModule.Proofs.Path.Components

/-!
# GrammarModule.Proofs.Files.Contents

What reading a path in a file tree gives. Links are followed to their end, so no walk stops at one
(`FileTree.Finds.ne_link`); what is found is a file, a device or a directory, and only the first two
have bytes (`FileTree.contents_eq_ok_iff`, `FileTree.contents_eq_error_iff`).
-/

namespace GrammarModule

namespace Node

variable {root : Node} {location location' : Location} {segments : List (List UInt8)} {n : Nat}
  {r : Except StorageError Location}

theorem get?_append (root : Node) (location : Location) (name : List UInt8) :
    root.get? (location ++ [name]) = (root.get? location).bind (·.get? [name]) := by
  induction location generalizing root with
  | nil => rfl
  | cons first rest ih =>
    cases root with
    | directory entries =>
      rw [List.cons_append, get?, get?]
      cases entries.lookup first with
      | none => rfl
      | some node => exact ih node
    | file | link | device => rfl

theorem HasDirectory.dropLast (h : root.HasDirectory location) :
    root.HasDirectory location.dropLast := by
  obtain ⟨entries, h⟩ := h
  rcases List.eq_nil_or_concat location with rfl | ⟨before, name, rfl⟩
  · exact ⟨entries, h⟩
  · rw [List.concat_eq_append] at h ⊢
    rw [List.dropLast_concat]
    rw [get?_append] at h
    -- only a directory has something below it
    cases hnode : root.get? before with
    | none =>
      rw [hnode] at h
      cases h
    | some node =>
      rw [hnode] at h
      cases node with
      | directory entries => exact ⟨entries, hnode⟩
      | file | link | device => cases h

theorem HasDirectory.ne_link (h : root.HasDirectory location) (target : Path) :
    root.get? location ≠ some (.link target) := by
  obtain ⟨entries, h⟩ := h
  rw [h]
  intro heq
  cases heq

/-- A walk that goes anywhere does not end at a link. -/
theorem Walks.not_link (h : root.Walks n location segments r) (hr : r = .ok location')
    (hlocation : segments = [] → ∀ target, root.get? location ≠ some (.link target))
    (target : Path) : root.get? location' ≠ some (.link target) := by
  induction h with
  | done =>
    cases hr
    exact hlocation rfl target
  | notDirectory | tooLong | missing => cases hr
  | stay hd _ _ ih => exact ih hr fun _ => hd.ne_link
  | up hd _ ih => exact ih hr fun _ => hd.dropLast.ne_link
  | last _ _ hn =>
    cases hr
    rw [hn]
    intro heq
    cases heq
  | enter _ _ hn hl _ ih =>
    refine ih hr fun _ target => ?_
    rw [hn]
    intro heq
    exact hl target (Option.some.inj heq)
  | follow _ _ _ _ ih =>
    refine ih hr fun hnil => ?_
    exact absurd (List.append_eq_nil_iff.1 hnil).1 (Path.segmentsOf_ne_nil _)

/-- The reasons why a walk ends on the way. -/
theorem Walks.reason {e : StorageError} (h : root.Walks n location segments (.error e)) :
    e = .notFound ∨ e = .notDirectory ∨ e = .nameTooLong := by
  generalize hr : Except.error e = r at h
  induction h with
  | done | last => cases hr
  | notDirectory | tooLong | missing =>
    cases hr
    simp
  | stay _ _ _ ih => exact ih hr
  | up _ _ ih => exact ih hr
  | enter _ _ _ _ _ ih => exact ih hr
  | follow _ _ _ _ ih => exact ih hr

end Node

namespace FileTree

variable {t : FileTree} {p : Path} {e : StorageError} {bytes : List UInt8}

theorem Leads.not_link {location : Location} (h : t.Leads p (.ok location)) (target : Path) :
    t.root.get? location ≠ some (.link target) := by
  obtain ⟨n, -, h⟩ := h
  exact h.not_link rfl (fun hnil => absurd hnil (Path.segmentsOf_ne_nil _)) target

theorem Finds.ne_link {target : Path} : ¬ t.Finds p (.ok (.link target)) := by
  intro h
  cases h with
  | node _ h hn => exact h.not_link target hn

/-- The reasons why nothing is found at a path. -/
theorem Finds.reason (h : t.Finds p (.error e)) :
    e ∈ [.notFound, .notDirectory, .nameTooLong, .tooManyLinks, .nulInName] := by
  cases h with
  | dangling | loop | nul | empty | tooLong => simp
  | stuck _ h =>
    obtain ⟨n, -, h⟩ := h
    rcases h.reason with rfl | rfl | rfl <;> simp

/-! ## The bytes at a path -/

/-- The bytes that can be read at a path: those of a file, and none from a device. -/
inductive Holds (t : FileTree) (p : Path) : List UInt8 → Prop
  | file {contents : List UInt8} (h : t.Finds p (.ok (.file contents))) : Holds t p contents
  | device (h : t.Finds p (.ok .device)) : Holds t p []

theorem contents_of_node {node : Node} (h : t.node p = .ok node) :
    t.files.contents p = match node with
      | .file contents => .ok contents
      | .directory _ => .error .isDirectory
      | .device | .link _ => .ok [] := by
  simp only [files, h]
  cases node <;> rfl

theorem contents_of_node_error (h : t.node p = .error e) : t.files.contents p = .error e := by
  simp only [files, h]
  rfl

theorem contents_eq_ok_iff : t.files.contents p = .ok bytes ↔ t.Holds p bytes := by
  constructor
  · intro h
    cases hnode : t.node p with
    | error e =>
      rw [contents_of_node_error hnode] at h
      cases h
    | ok node =>
      rw [contents_of_node hnode] at h
      have hfinds := node_eq_iff.1 hnode
      cases node with
      | file contents =>
        cases h
        exact .file hfinds
      | directory entries => cases h
      | link target => exact absurd hfinds Finds.ne_link
      | device =>
        cases h
        exact .device hfinds
  · rintro (h | h)
    · exact contents_of_node (node_eq_iff.2 h)
    · exact contents_of_node (node_eq_iff.2 h)

theorem contents_eq_error_iff : t.files.contents p = .error e ↔
    t.Finds p (.error e) ∨ e = .isDirectory ∧ ∃ entries, t.Finds p (.ok (.directory entries)) := by
  constructor
  · intro h
    cases hnode : t.node p with
    | error e' =>
      rw [contents_of_node_error hnode] at h
      cases h
      exact .inl (node_eq_iff.1 hnode)
    | ok node =>
      rw [contents_of_node hnode] at h
      cases node with
      | directory entries =>
        cases h
        exact .inr ⟨rfl, entries, node_eq_iff.1 hnode⟩
      | file | link | device => cases h
  · rintro (h | ⟨rfl, entries, h⟩)
    · exact contents_of_node_error (node_eq_iff.2 h)
    · exact contents_of_node (node_eq_iff.2 h)

end FileTree
end GrammarModule
