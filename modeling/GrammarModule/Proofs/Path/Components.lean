import GrammarModule.Proofs.Text.Utf8
import GrammarModule.Path
import Mathlib.Data.List.Basic

/-!
# GrammarModule.Proofs.Path.Components

The components of a path, and of joined paths. A path begins in one of three ways (`start`), and
then goes on with its steps; both decide which paths are alike (`alike_iff`). Joining with a
relative path adds the steps of that path and nothing else (`components_join`), so it respects
spellings (`Alike.join`), and the last segment is that of the path that is joined
(`getLast?_segments_join`).
-/

namespace GrammarModule
namespace Path

variable {p p' q q' : Path} {b : UInt8} {bytes rest : List UInt8} {s : String}

/-! ## Segments -/

theorem segmentsOf_ne_nil (bytes : List UInt8) : segmentsOf bytes ≠ [] := by
  cases bytes with
  | nil => simp [segmentsOf]
  | cons b rest =>
    rw [segmentsOf]
    split
    · simp
    · split <;> simp

theorem segmentsOf_cons_slash (rest : List UInt8) :
    segmentsOf (slash :: rest) = [] :: segmentsOf rest := by
  rw [segmentsOf]
  split
  · next h => exact absurd h (segmentsOf_ne_nil rest)
  · next h => rw [if_pos rfl, h]

theorem segmentsOf_cons (hb : b ≠ slash) (rest : List UInt8) :
    segmentsOf (b :: rest) = (segmentsOf rest).modifyHead (b :: ·) := by
  rw [segmentsOf]
  split
  · next h => exact absurd h (segmentsOf_ne_nil rest)
  · next h => rw [if_neg hb, h, List.modifyHead_cons]

/-- A slash separates what stands before it from what stands after it. -/
theorem segmentsOf_append_slash (bytes rest : List UInt8) :
    segmentsOf (bytes ++ slash :: rest) = segmentsOf bytes ++ segmentsOf rest := by
  induction bytes with
  | nil => exact segmentsOf_cons_slash rest
  | cons b bytes ih =>
    rw [List.cons_append]
    by_cases hb : b = slash
    · rw [hb, segmentsOf_cons_slash, segmentsOf_cons_slash, ih, List.cons_append]
    · rw [segmentsOf_cons hb, segmentsOf_cons hb, ih]
      cases h : segmentsOf bytes with
      | nil => exact absurd h (segmentsOf_ne_nil bytes)
      | cons first others => rfl

theorem segmentsOf_of_not_mem (h : slash ∉ bytes) : segmentsOf bytes = [bytes] := by
  induction bytes with
  | nil => rfl
  | cons b bytes ih =>
    rw [List.mem_cons, not_or] at h
    rw [segmentsOf_cons (Ne.symm h.1), ih h.2]
    rfl

/-- What has no slash continues the last segment. -/
theorem exists_last_segment (bytes : List UInt8) : ∃ before last, ∀ more : List UInt8,
    slash ∉ more → segmentsOf (bytes ++ more) = before ++ [last ++ more] := by
  induction bytes with
  | nil => exact ⟨[], [], fun more hmore => segmentsOf_of_not_mem hmore⟩
  | cons b bytes ih =>
    obtain ⟨before, last, h⟩ := ih
    by_cases hb : b = slash
    · refine ⟨[] :: before, last, ?_⟩
      intro more hmore
      rw [hb, List.cons_append, segmentsOf_cons_slash, h more hmore, List.cons_append]
    · cases before with
      | nil =>
        refine ⟨[], b :: last, ?_⟩
        intro more hmore
        rw [List.cons_append, segmentsOf_cons hb, h more hmore]
        rfl
      | cons first others =>
        refine ⟨(b :: first) :: others, last, ?_⟩
        intro more hmore
        rw [List.cons_append, segmentsOf_cons hb, h more hmore]
        rfl

theorem mem_segmentsOf_iff (hb : b ≠ slash) :
    (∃ segment ∈ segmentsOf bytes, b ∈ segment) ↔ b ∈ bytes := by
  induction bytes with
  | nil => simp [segmentsOf]
  | cons first rest ih =>
    by_cases hf : first = slash
    · rw [hf, segmentsOf_cons_slash]
      simp [ih, hb]
    · rw [segmentsOf_cons hf, List.mem_cons, ← ih]
      cases h : segmentsOf rest with
      | nil => exact absurd h (segmentsOf_ne_nil rest)
      | cons segment others => simp [or_assoc]

/-! ## Steps -/

/-- The steps that the segments of a path stand for. -/
def steps (p : Path) : List Component := p.segments.filterMap step?

/-- How a path begins: at the root, with a dot that counts, or with its first step. -/
def start (p : Path) : List Component :=
  if p.isAbsolute then [.root] else if p.segments.head? = some [dot] then [.current] else []

theorem components_eq (p : Path) : p.components = p.start ++ p.steps := by
  rw [components, start]
  split_ifs <;> rfl

theorem step?_eq_none_iff {segment : List UInt8} :
    step? segment = none ↔ segment = [] ∨ segment = [dot] := by
  rw [step?]
  split_ifs with hstay hup <;> simp [hstay]

theorem step?_of_length {segment : List UInt8} (h : 2 < segment.length) :
    step? segment = some (.name segment) := by
  rw [step?, if_neg, if_neg]
  · rintro rfl
    simp at h
  · rintro (rfl | rfl) <;> simp at h

/-- A step goes up, or it has a name. -/
theorem parent_or_name {c : Component} (h : c ∈ p.steps) :
    c = .parent ∨ ∃ name, c = .name name := by
  obtain ⟨segment, -, hstep⟩ := List.mem_filterMap.1 h
  rw [step?] at hstep
  split_ifs at hstep with hstay hup
  · exact .inl (Option.some.inj hstep).symm
  · exact .inr ⟨segment, (Option.some.inj hstep).symm⟩

/-! ## Spellings of one path -/

/-- The component says where a path begins. -/
def Component.isStart : Component → Bool
  | .root | .current => true
  | .parent | .name _ => false

theorem filter_start (p : Path) : p.components.filter Component.isStart = p.start := by
  have hstart : ∀ c ∈ p.start, c.isStart = true := by
    rw [start]
    split_ifs <;> simp [Component.isStart]
  have hsteps : ∀ c ∈ p.steps, ¬ c.isStart = true := by
    intro c hc
    rcases parent_or_name hc with rfl | ⟨name, rfl⟩ <;> simp [Component.isStart]
  rw [components_eq, List.filter_append, List.filter_eq_self.2 hstart,
    List.filter_eq_nil_iff.2 hsteps, List.append_nil]

theorem alike_iff : p.Alike q ↔ p.start = q.start ∧ p.steps = q.steps := by
  constructor
  · intro h
    have hstart : p.start = q.start := by rw [← filter_start, ← filter_start, h]
    have hcomponents : p.start ++ p.steps = q.start ++ q.steps := by
      rw [← components_eq, ← components_eq, h]
    rw [hstart] at hcomponents
    exact ⟨hstart, List.append_cancel_left hcomponents⟩
  · rintro ⟨hstart, hsteps⟩
    rw [Alike, components_eq, components_eq, hstart, hsteps]

theorem isAbsolute_iff : p.isAbsolute = true ↔ p.start = [.root] := by
  rw [start]
  split_ifs with ha hd <;> simp [ha]

theorem Alike.isAbsolute_eq (h : p.Alike q) : p.isAbsolute = q.isAbsolute := by
  rw [Bool.eq_iff_iff, isAbsolute_iff, isAbsolute_iff, (alike_iff.1 h).1]

/-- Only the empty path goes nowhere. -/
theorem components_eq_nil_iff : p.components = [] ↔ p.bytes = [] := by
  constructor
  · intro h
    rw [components_eq, List.append_eq_nil_iff] at h
    obtain ⟨hstart, hsteps⟩ := h
    cases hb : p.bytes with
    | nil => rfl
    | cons b rest =>
      rw [start, isAbsolute, segments, hb] at hstart
      rw [steps, segments, hb] at hsteps
      split_ifs at hstart with ha hd
      have hslash : b ≠ slash := by simpa using ha
      rw [segmentsOf_cons hslash] at hd hsteps
      -- the first segment has a byte, so it is no empty one, and it is no dot either
      cases hs : segmentsOf rest with
      | nil => exact absurd hs (segmentsOf_ne_nil rest)
      | cons first others =>
        rw [hs, List.modifyHead_cons] at hd hsteps
        have hnone := List.filterMap_eq_nil_iff.1 hsteps _ List.mem_cons_self
        rcases step?_eq_none_iff.1 hnone with h | h
        · cases h
        · exact absurd (congrArg some h) hd
  · intro h
    rw [components, isAbsolute, segments, h]
    rfl

theorem Alike.bytes_eq_nil_iff (h : p.Alike q) : p.bytes = [] ↔ q.bytes = [] := by
  rw [← components_eq_nil_iff, ← components_eq_nil_iff, h]

/-- A byte that separates nothing stands in one of the names. -/
theorem mem_bytes_iff (hs : b ≠ slash) (hd : b ≠ dot) :
    b ∈ p.bytes ↔ ∃ name, Component.name name ∈ p.steps ∧ b ∈ name := by
  rw [← mem_segmentsOf_iff hs]
  constructor
  · rintro ⟨segment, hmem, hb⟩
    refine ⟨segment, List.mem_filterMap.2 ⟨segment, hmem, ?_⟩, hb⟩
    rw [step?, if_neg, if_neg]
    · rintro rfl
      simp [hd] at hb
    · rintro (rfl | rfl) <;> simp [hd] at hb
  · rintro ⟨name, hmem, hb⟩
    obtain ⟨segment, hsegment, hstep⟩ := List.mem_filterMap.1 hmem
    rw [step?] at hstep
    split_ifs at hstep
    · cases hstep
    · cases hstep
      exact ⟨_, hsegment, hb⟩

theorem Alike.mem_bytes_iff (h : p.Alike q) (hs : b ≠ slash) (hd : b ≠ dot) :
    b ∈ p.bytes ↔ b ∈ q.bytes := by
  rw [Path.mem_bytes_iff hs hd, Path.mem_bytes_iff hs hd, (alike_iff.1 h).2]

/-! ## Joined paths -/

/-- What stands between a path and a relative one that is joined to it. -/
def separator (p : Path) : List UInt8 :=
  if p.bytes.isEmpty || p.bytes.getLast? == some slash then [] else [slash]

theorem join_of_absolute (h : q.isAbsolute = true) (p : Path) : p.join q = q := by
  rw [join, if_pos h]

theorem join_of_relative (h : q.isAbsolute = false) (p : Path) :
    p.join q = ⟨p.bytes ++ (p.separator ++ q.bytes)⟩ := by
  rw [join, if_neg (Bool.eq_false_iff.1 h), separator]
  split_ifs <;> rfl

theorem join_of_empty (h : p.bytes = []) (q : Path) : p.join q = q := by
  cases hq : q.isAbsolute with
  | true => exact join_of_absolute hq p
  | false =>
    rw [join_of_relative hq, separator, h]
    rfl

theorem join_inj (h : q.isAbsolute = false) (h' : q'.isAbsolute = false) :
    p.join q = p.join q' ↔ q = q' := by
  rw [join_of_relative h, join_of_relative h', Path.mk.injEq, List.append_cancel_left_eq,
    List.append_cancel_left_eq]
  exact ⟨fun h => by cases q; cases q'; cases h; rfl, fun h => by rw [h]⟩

theorem prefix_bytes_join (h : q.isAbsolute = false) (p : Path) : p.bytes <+: (p.join q).bytes := by
  rw [join_of_relative h]
  exact List.prefix_append _ _

/-- The segments of joined paths: an empty one after a slash at the end is gone. -/
theorem exists_segments_join (hp : p.bytes ≠ []) (h : q.isAbsolute = false) :
    ∃ before, before ≠ [] ∧ (p.segments = before ∨ p.segments = before ++ [[]]) ∧
      (p.join q).segments = before ++ q.segments := by
  rw [join_of_relative h, separator]
  have he : p.bytes.isEmpty = false := by simpa using hp
  rw [he, Bool.false_or]
  split_ifs with hlast
  · obtain ⟨bytes, hbytes⟩ := List.getLast?_eq_some_iff.1 (beq_iff_eq.1 hlast)
    refine ⟨segmentsOf bytes, segmentsOf_ne_nil bytes, .inr ?_, ?_⟩
    · rw [segments, hbytes, segmentsOf_append_slash]
      rfl
    · rw [segments, hbytes, List.nil_append, List.append_assoc, List.singleton_append,
        segmentsOf_append_slash, segments]
  · refine ⟨p.segments, segmentsOf_ne_nil _, .inl rfl, ?_⟩
    rw [segments, List.singleton_append, segmentsOf_append_slash, segments, segments]

theorem steps_join (h : q.isAbsolute = false) (p : Path) :
    (p.join q).steps = p.steps ++ q.steps := by
  by_cases hp : p.bytes = []
  · have hsteps : p.steps = [] := by
      rw [steps, segments, hp]
      rfl
    rw [join_of_empty hp, hsteps, List.nil_append]
  · obtain ⟨before, -, hsegments, hjoin⟩ := exists_segments_join hp h
    rw [steps, hjoin, List.filterMap_append, steps, steps]
    rcases hsegments with hsegments | hsegments
    · rw [hsegments]
    · rw [hsegments, List.filterMap_append]
      simp [step?]

theorem start_join (hp : p.bytes ≠ []) (h : q.isAbsolute = false) : (p.join q).start = p.start := by
  obtain ⟨before, hne, hsegments, hjoin⟩ := exists_segments_join hp h
  have habsolute : (p.join q).isAbsolute = p.isAbsolute := by
    rw [isAbsolute, join_of_relative h, isAbsolute, List.head?_append_of_ne_nil _ hp]
  have hhead : (p.join q).segments.head? = p.segments.head? := by
    rw [hjoin, List.head?_append_of_ne_nil _ hne]
    rcases hsegments with hsegments | hsegments
    · rw [hsegments]
    · rw [hsegments, List.head?_append_of_ne_nil _ hne]
  rw [start, habsolute, hhead, start]

/-- A relative path adds its steps, and its own dot at the beginning does not count. -/
theorem components_join (hp : p.bytes ≠ []) (h : q.isAbsolute = false) :
    (p.join q).components = p.components ++ q.steps := by
  rw [components_eq, start_join hp h, steps_join h, components_eq, List.append_assoc]

/-- A path that begins with a step adds its components to any path, the empty one included. -/
theorem components_join_of_start (hs : q.start = []) (p : Path) :
    (p.join q).components = p.components ++ q.steps := by
  by_cases hp : p.bytes = []
  · rw [join_of_empty hp, components_eq_nil_iff.2 hp, components_eq, hs]
  · refine components_join hp ?_
    rw [← Bool.not_eq_true, isAbsolute_iff, hs]
    simp

theorem Alike.join (h : p.Alike p') (q : Path) : (p.join q).Alike (p'.join q) := by
  cases hq : q.isAbsolute with
  | true =>
    rw [join_of_absolute hq, join_of_absolute hq]
    rfl
  | false =>
    by_cases hp : p.bytes = []
    · rw [join_of_empty hp, join_of_empty (h.bytes_eq_nil_iff.1 hp)]
      rfl
    · rw [Alike, components_join hp hq, components_join (mt h.bytes_eq_nil_iff.2 hp) hq, h]

theorem getLast?_segments_join (p q : Path) :
    (p.join q).segments.getLast? = q.segments.getLast? := by
  cases hq : q.isAbsolute with
  | true => rw [join_of_absolute hq]
  | false =>
    by_cases hp : p.bytes = []
    · rw [join_of_empty hp]
    · obtain ⟨before, -, -, hjoin⟩ := exists_segments_join hp hq
      rw [hjoin]
      exact List.getLast?_append_of_ne_nil before (segmentsOf_ne_nil q.bytes)

/-! ## Texts -/

/-- A slash is encoded as itself, and it is no part of another character. -/
theorem slash_mem_utf8EncodeChar_iff {c : Char} : slash ∈ String.utf8EncodeChar c ↔ c = '/' := by
  constructor
  · intro h
    obtain ⟨lead, tail, hs, he⟩ := Text.exists_sequence c
    rw [he] at h
    rcases List.mem_cons.1 h with rfl | h
    · cases hs with
      | one _ hv => exact Char.toNat_inj.1 hv
      | two hlead => exact absurd hlead (by decide)
      | three hlead => exact absurd hlead (by decide)
      | four hlead => exact absurd hlead (by decide)
    · exact absurd (hs.isContinuation_of_mem h) (by decide)
  · rintro rfl
    decide

theorem slash_mem_encode_iff {text : List Char} : slash ∈ Text.encode text ↔ '/' ∈ text := by
  simp only [Text.encode, List.mem_flatMap, slash_mem_utf8EncodeChar_iff, exists_eq_right]

theorem bytes_ofText_append (s t : String) :
    (ofText (s ++ t)).bytes = (ofText s).bytes ++ (ofText t).bytes := by
  rw [ofText, String.toList_append, Text.encode_append, ofText, ofText]

theorem ofText_inj {s t : String} : ofText s = ofText t ↔ s = t := by
  rw [ofText, ofText, Path.mk.injEq, Text.encode_inj, String.toList_inj]

theorem isAbsolute_ofText_iff : (ofText s).isAbsolute = true ↔ s.toList.head? = some '/' := by
  rw [isAbsolute, ofText, beq_iff_eq]
  cases hs : s.toList with
  | nil => simp [Text.encode]
  | cons c rest =>
    obtain ⟨lead, tail, hseq, he⟩ := Text.exists_sequence c
    rw [Text.encode_cons, he, List.cons_append, List.head?_cons, List.head?_cons, Option.some.injEq,
      Option.some.injEq]
    constructor
    · rintro rfl
      exact slash_mem_utf8EncodeChar_iff.1 (by rw [he]; exact List.mem_cons_self)
    · rintro rfl
      cases he
      rfl

end Path
end GrammarModule
