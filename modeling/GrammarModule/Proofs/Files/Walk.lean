import GrammarModule.Files.Tree
import Mathlib.Data.List.Basic

/-!
# GrammarModule.Proofs.Files.Walk

How a path leads through a file tree, as a relation with one constructor for each thing that can
happen at a segment (`Node.Walks`). It counts the links that are passed, and it has no limit on
them: a walk that never ends is related to nothing. `walk_eq_iff` is about the walk with a limit,
and `FileTree.node_eq_iff` says what is found at a path.
-/

namespace GrammarModule

/-- A segment that is looked up: an empty one and a dot stay, two dots go up. -/
structure IsName (segment : List UInt8) : Prop where
  ne_nil : segment ≠ []
  ne_dot : segment ≠ [Path.dot]
  ne_dots : segment ≠ [Path.dot, Path.dot]
  short : segment.length ≤ FileTree.nameLimit

theorem segment_cases (segment : List UInt8) :
    (segment = [] ∨ segment = [Path.dot]) ∨ segment = [Path.dot, Path.dot] ∨
      FileTree.nameLimit < segment.length ∨ IsName segment := by
  by_cases hstay : segment = [] ∨ segment = [Path.dot]
  · exact .inl hstay
  · rw [not_or] at hstay
    by_cases hup : segment = [Path.dot, Path.dot]
    · exact .inr (.inl hup)
    · by_cases hlong : FileTree.nameLimit < segment.length
      · exact .inr (.inr (.inl hlong))
      · exact .inr (.inr (.inr ⟨hstay.1, hstay.2, hup, Nat.not_lt.1 hlong⟩))

namespace Node

variable {root node : Node} {directory location : Location} {segment : List UInt8}
  {rest segments : List (List UInt8)} {links n : Nat} {target : Path}
  {r r' : Except StorageError Location}

/-- There is a directory at the location. -/
def HasDirectory (root : Node) (location : Location) : Prop :=
  ∃ entries, root.get? location = some (.directory entries)

/-- A walk along segments from a location, through that many links, and where it ends. -/
inductive Walks (root : Node) :
    Nat → Location → List (List UInt8) → Except StorageError Location → Prop
  | done {location : Location} : Walks root 0 location [] (.ok location)
  /-- A file, or nothing, stands where a directory is needed. -/
  | notDirectory {location : Location} {segment : List UInt8} {rest : List (List UInt8)}
      (hd : ¬ root.HasDirectory location) :
      Walks root 0 location (segment :: rest) (.error .notDirectory)
  | stay {n : Nat} {location : Location} {segment : List UInt8} {rest : List (List UInt8)}
      {r : Except StorageError Location} (hd : root.HasDirectory location)
      (hs : segment = [] ∨ segment = [Path.dot]) (h : Walks root n location rest r) :
      Walks root n location (segment :: rest) r
  | up {n : Nat} {location : Location} {rest : List (List UInt8)}
      {r : Except StorageError Location} (hd : root.HasDirectory location)
      (h : Walks root n location.dropLast rest r) :
      Walks root n location ([Path.dot, Path.dot] :: rest) r
  | tooLong {location : Location} {segment : List UInt8} {rest : List (List UInt8)}
      (hd : root.HasDirectory location) (hs : FileTree.nameLimit < segment.length) :
      Walks root 0 location (segment :: rest) (.error .nameTooLong)
  /-- Nothing has the name, but more segments follow. -/
  | missing {location : Location} {segment next : List UInt8} {rest : List (List UInt8)}
      (hd : root.HasDirectory location) (hs : IsName segment)
      (hn : root.get? (location ++ [segment]) = none) :
      Walks root 0 location (segment :: next :: rest) (.error .notFound)
  /-- Nothing has the last name; what is there is left to the caller. -/
  | last {location : Location} {segment : List UInt8} (hd : root.HasDirectory location)
      (hs : IsName segment) (hn : root.get? (location ++ [segment]) = none) :
      Walks root 0 location [segment] (.ok (location ++ [segment]))
  | enter {n : Nat} {location : Location} {segment : List UInt8} {rest : List (List UInt8)}
      {node : Node} {r : Except StorageError Location} (hd : root.HasDirectory location)
      (hs : IsName segment) (hn : root.get? (location ++ [segment]) = some node)
      (hl : ∀ target, node ≠ .link target) (h : Walks root n (location ++ [segment]) rest r) :
      Walks root n location (segment :: rest) r
  | follow {n : Nat} {location : Location} {segment : List UInt8} {rest : List (List UInt8)}
      {target : Path} {r : Except StorageError Location} (hd : root.HasDirectory location)
      (hs : IsName segment) (hn : root.get? (location ++ [segment]) = some (.link target))
      (h : Walks root n (FileTree.origin location target) (target.segments ++ rest) r) :
      Walks root (n + 1) location (segment :: rest) r

theorem hasDirectory_iff :
    root.HasDirectory location ↔ (root.get? location).any (·.isDirectory) = true := by
  rw [HasDirectory]
  cases root.get? location with
  | none => simp
  | some node => cases node <;> simp [isDirectory]

/-- The limit on links is none of the ways in which a walk ends. -/
theorem Walks.ne_tooManyLinks (h : root.Walks n location segments r) :
    r ≠ .error .tooManyLinks := by
  induction h with
  | done | notDirectory | tooLong | missing | last => simp
  | stay _ _ _ ih => exact ih
  | up _ _ ih => exact ih
  | enter _ _ _ _ _ ih => exact ih
  | follow _ _ _ _ ih => exact ih

end Node

namespace FileTree

variable {root node : Node} {location : Location} {segment : List UInt8}
  {rest segments : List (List UInt8)} {links n : Nat} {target : Path}
  {r : Except StorageError Location}
  {follow : Location → Path → List (List UInt8) → Except StorageError Location}

/-! ## One segment -/

theorem walkWith_of_not_hasDirectory (hd : ¬ root.HasDirectory location) :
    walkWith follow root location (segment :: rest) = .error .notDirectory := by
  rw [Node.hasDirectory_iff, Bool.not_eq_true] at hd
  rw [walkWith, hd]
  rfl

theorem walkWith_stay (hd : root.HasDirectory location)
    (hs : segment = [] ∨ segment = [Path.dot]) :
    walkWith follow root location (segment :: rest) = walkWith follow root location rest := by
  rw [walkWith, if_neg (by simp [Node.hasDirectory_iff.1 hd]), if_pos hs]

theorem walkWith_up (hd : root.HasDirectory location) :
    walkWith follow root location ([Path.dot, Path.dot] :: rest) =
      walkWith follow root location.dropLast rest := by
  rw [walkWith, if_neg (by simp [Node.hasDirectory_iff.1 hd]), if_neg (by simp), if_pos rfl]

theorem walkWith_tooLong (hd : root.HasDirectory location) (hs : nameLimit < segment.length) :
    walkWith follow root location (segment :: rest) = .error .nameTooLong := by
  have hlong : 255 < segment.length := hs
  rw [walkWith, if_neg (by simp [Node.hasDirectory_iff.1 hd]), if_neg, if_neg, if_pos hs]
  · rintro rfl
    simp at hlong
  · rintro (rfl | rfl) <;> simp at hlong

theorem walkWith_name (hd : root.HasDirectory location) (hs : IsName segment) :
    walkWith follow root location (segment :: rest) =
      match root.get? (location ++ [segment]) with
      | some (.link target) => follow location target rest
      | some _ => walkWith follow root (location ++ [segment]) rest
      | none => if rest.isEmpty then .ok (location ++ [segment]) else .error .notFound := by
  have hdirectory : ¬ !(root.get? location).any (·.isDirectory) := by
    simp [Node.hasDirectory_iff.1 hd]
  have hstay : ¬ (segment = [] ∨ segment = [Path.dot]) := by
    rintro (h | h)
    · exact hs.ne_nil h
    · exact hs.ne_dot h
  rw [walkWith]
  exact (if_neg hdirectory).trans <| (if_neg hstay).trans <| (if_neg hs.ne_dots).trans <|
    if_neg (Nat.not_lt.2 hs.short)

theorem walkWith_enter (hd : root.HasDirectory location) (hs : IsName segment)
    (hn : root.get? (location ++ [segment]) = some node) (hl : ∀ target, node ≠ .link target) :
    walkWith follow root location (segment :: rest) =
      walkWith follow root (location ++ [segment]) rest := by
  rw [walkWith_name hd hs, hn]
  cases node with
  | link target => exact absurd rfl (hl target)
  | file | directory | device => rfl

/-! ## Walks -/

/-- How a walk goes on at a link, with so many links left to pass. -/
def pass (root : Node) : Nat → Location → Path → List (List UInt8) → Except StorageError Location
  | 0, _, _, _ => .error .tooManyLinks
  | links + 1, location, target, rest =>
    walk root links (origin location target) (target.segments ++ rest)

theorem walk_eq (root : Node) (links : Nat) :
    walk root links = walkWith (pass root links) root := by
  cases links <;> rfl

theorem walk_of_walks (h : root.Walks n location segments r) (hn : n ≤ links) :
    walk root links location segments = r := by
  induction h generalizing links with
  | done => rw [walk_eq, walkWith]
  | notDirectory hd => rw [walk_eq, walkWith_of_not_hasDirectory hd]
  | stay hd hs _ ih => rw [walk_eq, walkWith_stay hd hs, ← walk_eq, ih hn]
  | up hd _ ih => rw [walk_eq, walkWith_up hd, ← walk_eq, ih hn]
  | tooLong hd hs => rw [walk_eq, walkWith_tooLong hd hs]
  | missing hd hs hnone =>
    rw [walk_eq, walkWith_name hd hs, hnone]
    rfl
  | last hd hs hnone =>
    rw [walk_eq, walkWith_name hd hs, hnone]
    rfl
  | enter hd hs hsome hl _ ih => rw [walk_eq, walkWith_enter hd hs hsome hl, ← walk_eq, ih hn]
  | follow hd hs hlink _ ih =>
    obtain ⟨links, rfl⟩ : ∃ k, links = k + 1 := ⟨links - 1, by omega⟩
    rw [walk_eq, walkWith_name hd hs, hlink]
    exact ih (by omega)

/-- It is enough that walks which have passed a link are walks. -/
theorem walks_of_pass (hpass : ∀ location target rest,
      pass root links location target rest = .error .tooManyLinks ∨
        ∃ n < links, root.Walks n (origin location target) (target.segments ++ rest)
          (pass root links location target rest)) (segments : List (List UInt8))
    (location : Location) :
    walk root links location segments = .error .tooManyLinks ∨
      ∃ n ≤ links, root.Walks n location segments (walk root links location segments) := by
  induction segments generalizing location with
  | nil =>
    rw [walk_eq, walkWith]
    exact .inr ⟨0, Nat.zero_le _, .done⟩
  | cons segment rest ih =>
    by_cases hd : root.HasDirectory location
    · rcases segment_cases segment with hs | rfl | hs | hs
      · rw [walk_eq, walkWith_stay hd hs, ← walk_eq]
        exact (ih location).imp_right fun ⟨n, hn, h⟩ => ⟨n, hn, .stay hd hs h⟩
      · rw [walk_eq, walkWith_up hd, ← walk_eq]
        exact (ih location.dropLast).imp_right fun ⟨n, hn, h⟩ => ⟨n, hn, .up hd h⟩
      · rw [walk_eq, walkWith_tooLong hd hs]
        exact .inr ⟨0, Nat.zero_le _, .tooLong hd hs⟩
      · cases hn : root.get? (location ++ [segment]) with
        | none =>
          rw [walk_eq, walkWith_name hd hs, hn]
          right
          cases rest with
          | nil => exact ⟨0, Nat.zero_le _, .last hd hs hn⟩
          | cons next rest => exact ⟨0, Nat.zero_le _, .missing hd hs hn⟩
        | some node =>
          by_cases hl : ∃ target, node = .link target
          · obtain ⟨target, rfl⟩ := hl
            rw [walk_eq, walkWith_name hd hs, hn]
            exact (hpass location target rest).imp_right fun ⟨n, hlt, h⟩ =>
              ⟨n + 1, hlt, .follow hd hs hn h⟩
          · rw [not_exists] at hl
            rw [walk_eq, walkWith_enter hd hs hn hl, ← walk_eq]
            exact (ih _).imp_right fun ⟨n, hle, h⟩ => ⟨n, hle, .enter hd hs hn hl h⟩
    · rw [walk_eq, walkWith_of_not_hasDirectory hd]
      exact .inr ⟨0, Nat.zero_le _, .notDirectory hd⟩

/-- A walk with a limit on links is one without, unless it runs into the limit. -/
theorem walks_of_walk (root : Node) (links : Nat) (segments : List (List UInt8))
    (location : Location) :
    walk root links location segments = .error .tooManyLinks ∨
      ∃ n ≤ links, root.Walks n location segments (walk root links location segments) := by
  induction links generalizing segments location with
  | zero => exact walks_of_pass (fun _ _ _ => .inl rfl) segments location
  | succ links ih =>
    refine walks_of_pass ?_ segments location
    intro location target rest
    exact (ih _ _).imp_right fun ⟨n, hn, h⟩ => ⟨n, Nat.lt_succ_of_le hn, h⟩

theorem walk_eq_iff : walk root links location segments = r ↔
    (∃ n ≤ links, root.Walks n location segments r) ∨
      r = .error .tooManyLinks ∧ ∀ n r', root.Walks n location segments r' → links < n := by
  constructor
  · rintro rfl
    rcases walks_of_walk root links segments location with hlimit | h
    · right
      refine ⟨hlimit, ?_⟩
      intro n r' h
      by_contra hn
      exact h.ne_tooManyLinks ((walk_of_walks h (Nat.not_lt.1 hn)).symm.trans hlimit)
    · exact .inl h
  · rintro (⟨n, hn, h⟩ | ⟨rfl, hmany⟩)
    · exact walk_of_walks h hn
    · rcases walks_of_walk root links segments location with hlimit | ⟨n, hn, h⟩
      · exact hlimit
      · exact absurd (hmany n _ h) (Nat.not_lt.2 hn)

/-! ## What is found at a path -/

variable {t : FileTree} {p : Path}

/-- A path that can be looked up at all. -/
structure Sound (p : Path) : Prop where
  no_nul : 0 ∉ p.bytes
  ne_nil : p.bytes ≠ []
  short : p.bytes.length < pathLimit

/-- Where the walk along a path ends, links being followed. -/
def Leads (t : FileTree) (p : Path) (r : Except StorageError Location) : Prop :=
  ∃ n ≤ linkLimit, t.root.Walks n (origin t.here p) p.segments r

/-- What looking at a path gives: an object, or the reason why there is none. -/
inductive Finds (t : FileTree) (p : Path) : Except StorageError Node → Prop
  | node {location : Location} {node : Node} (hp : Sound p) (h : t.Leads p (.ok location))
      (hn : t.root.get? location = some node) : Finds t p (.ok node)
  /-- Only the last name is missing, perhaps behind links. -/
  | dangling {location : Location} (hp : Sound p) (h : t.Leads p (.ok location))
      (hn : t.root.get? location = none) : Finds t p (.error .notFound)
  /-- The walk ends on the way. -/
  | stuck {e : StorageError} (hp : Sound p) (h : t.Leads p (.error e)) : Finds t p (.error e)
  /-- The walk passes too many links, or goes around in them. -/
  | loop (hp : Sound p)
      (h : ∀ n r, t.root.Walks n (origin t.here p) p.segments r → linkLimit < n) :
      Finds t p (.error .tooManyLinks)
  | nul (h : 0 ∈ p.bytes) : Finds t p (.error .nulInName)
  | empty (h : p.bytes = []) : Finds t p (.error .notFound)
  | tooLong (hz : 0 ∉ p.bytes) (h : pathLimit ≤ p.bytes.length) :
      Finds t p (.error .nameTooLong)

theorem node_of_sound (hp : Sound p) : t.node p =
    (walk t.root linkLimit (origin t.here p) p.segments).bind fun location =>
      match t.root.get? location with
      | some node => .ok node
      | none => .error .notFound := by
  have hz : p.bytes.contains 0 = false := by simpa using hp.no_nul
  have he : p.bytes.isEmpty = false := by simpa using hp.ne_nil
  rw [node, reach, hz, he, if_neg Bool.false_ne_true, if_neg Bool.false_ne_true,
    if_neg (Nat.not_le.2 hp.short)]
  rfl

theorem node_of_walk {location : Location} (hp : Sound p)
    (h : walk t.root linkLimit (origin t.here p) p.segments = .ok location) : t.node p =
      match t.root.get? location with
      | some node => .ok node
      | none => .error .notFound := by
  rw [node_of_sound hp, h]
  rfl

theorem node_of_walk_error {e : StorageError} (hp : Sound p)
    (h : walk t.root linkLimit (origin t.here p) p.segments = .error e) : t.node p = .error e := by
  rw [node_of_sound hp, h]
  rfl

theorem Finds.node_eq {found : Except StorageError Node} (h : t.Finds p found) :
    t.node p = found := by
  cases h with
  | node hp h hn => rw [node_of_walk hp (walk_eq_iff.2 (.inl h)), hn]
  | dangling hp h hn => rw [node_of_walk hp (walk_eq_iff.2 (.inl h)), hn]
  | stuck hp h => exact node_of_walk_error hp (walk_eq_iff.2 (.inl h))
  | loop hp h => exact node_of_walk_error hp (walk_eq_iff.2 (.inr ⟨rfl, h⟩))
  | nul h =>
    have hz : p.bytes.contains 0 = true := by simpa using h
    rw [FileTree.node, reach, if_pos hz]
    rfl
  | empty h =>
    rw [FileTree.node, reach, h]
    rfl
  | tooLong hz h =>
    have hz : p.bytes.contains 0 = false := by simpa using hz
    have he : p.bytes.isEmpty = false := by
      cases hb : p.bytes with
      | nil =>
        rw [hb] at h
        cases h
      | cons => rfl
    rw [FileTree.node, reach, hz, he, if_neg Bool.false_ne_true, if_neg Bool.false_ne_true,
      if_pos h]
    rfl

theorem finds_node (t : FileTree) (p : Path) : t.Finds p (t.node p) := by
  by_cases hz : 0 ∈ p.bytes
  · rw [(Finds.nul hz).node_eq]
    exact .nul hz
  by_cases he : p.bytes = []
  · rw [(Finds.empty he).node_eq]
    exact .empty he
  by_cases hlong : pathLimit ≤ p.bytes.length
  · rw [(Finds.tooLong hz hlong).node_eq]
    exact .tooLong hz hlong
  have hp : Sound p := ⟨hz, he, Nat.not_le.1 hlong⟩
  cases hw : walk t.root linkLimit (origin t.here p) p.segments with
  | error e =>
    rw [node_of_walk_error hp hw]
    rcases walk_eq_iff.1 hw with h | ⟨he, h⟩
    · exact .stuck hp h
    · cases he
      exact .loop hp h
  | ok location =>
    rw [node_of_walk hp hw]
    rcases walk_eq_iff.1 hw with h | ⟨he, -⟩
    · cases hn : t.root.get? location with
      | none => exact .dangling hp h hn
      | some node => exact .node hp h hn
    · cases he

theorem node_eq_iff {found : Except StorageError Node} : t.node p = found ↔ t.Finds p found := by
  constructor
  · rintro rfl
    exact finds_node t p
  · exact Finds.node_eq

/-! ## The kind of what is found -/

theorem kind_of_node {t : FileTree} {p : Path} {node : Node} (h : t.node p = .ok node) :
    t.files.kind p = .ok (match node with
      | .file _ => .regular
      | _ => .other) := by
  simp only [files, h]
  cases node <;> rfl

theorem kind_of_node_error {t : FileTree} {p : Path} {e : StorageError}
    (h : t.node p = .error e) : t.files.kind p = .error e := by
  simp only [files, h]
  rfl

theorem kind_eq_regular_iff (t : FileTree) (p : Path) :
    t.files.kind p = .ok .regular ↔ ∃ contents, t.Finds p (.ok (.file contents)) := by
  simp only [← node_eq_iff]
  cases h : t.node p with
  | error e => simp [kind_of_node_error h]
  | ok node => cases node <;> simp [kind_of_node h]

theorem kind_eq_other_iff (t : FileTree) (p : Path) : t.files.kind p = .ok .other ↔
    ∃ node, t.Finds p (.ok node) ∧ ∀ contents, node ≠ .file contents := by
  simp only [← node_eq_iff]
  cases h : t.node p with
  | error e => simp [kind_of_node_error h]
  | ok node => cases node <;> simp [kind_of_node h]

theorem kind_eq_error_iff (t : FileTree) (p : Path) (e : StorageError) :
    t.files.kind p = .error e ↔ t.Finds p (.error e) := by
  rw [← node_eq_iff]
  cases h : t.node p with
  | error e => simp [kind_of_node_error h]
  | ok node => simp [kind_of_node h]

end FileTree
end GrammarModule
