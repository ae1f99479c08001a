import GrammarModule.Catalogue.Basic
import Mathlib.Data.List.Induction
import Mathlib.Logic.Equiv.Defs
import Mathlib.Order.Fin.Basic

/-!
# GrammarModule.Proofs.Catalogue.Lookup

The entry that a kind has, among entries that may repeat it: the last named one, or the last one
where none is named (`find?_eq_some_iff`). So entries of other kinds have no effect, nor do
anonymous ones beside a named one (`Differ`), and entries that are not alike may change places
(`Reordered`).
-/

namespace GrammarModule
namespace Catalogue

variable {c d : Catalogue} {kind : String} {e : KindEntry} {P : KindEntry → Prop}
  {p : KindEntry → Bool} {entries others : List KindEntry}

/-- The last of some entries with a property. -/
def LastOf (P : KindEntry → Prop) (entries : List KindEntry) (e : KindEntry) : Prop :=
  ∃ before after, entries = before ++ e :: after ∧ P e ∧ ∀ f ∈ after, ¬ P f

theorem lastOf_iff :
    LastOf (fun e => p e = true) entries e ↔ (entries.filter p).getLast? = some e := by
  rw [List.getLast?_filter, List.find?_eq_some_iff_append]
  constructor
  · rintro ⟨before, after, rfl, he, hafter⟩
    refine ⟨he, after.reverse, before.reverse, by simp, ?_⟩
    intro f hf
    simpa using hafter f (List.mem_reverse.1 hf)
  · rintro ⟨he, after, before, hsplit, hafter⟩
    refine ⟨before.reverse, after.reverse, ?_, he, ?_⟩
    · rw [← List.reverse_reverse entries, hsplit]
      simp
    · intro f hf
      simpa using hafter f (List.mem_reverse.1 hf)

/-- The entries of a kind that are named, or those that are not, in written order. -/
def ofKind (c : Catalogue) (kind : String) (named : Bool) : List KindEntry :=
  c.entries.filter fun e => e.kind == kind && e.named == named

theorem mem_ofKind {named : Bool} :
    e ∈ c.ofKind kind named ↔ e ∈ c.entries ∧ e.kind = kind ∧ e.named = named := by
  simp [ofKind]

/-! ## The entry of a kind -/

theorem foldl_prefer (entries : List KindEntry) :
    entries.foldl (fun best e => some (prefer best e)) none =
      ((entries.filter (·.named == true)).getLast?).or
        ((entries.filter (·.named == false)).getLast?) := by
  induction entries using List.reverseRecOn with
  | nil => rfl
  | append_singleton entries e ih =>
    rw [List.foldl_append, List.foldl_cons, List.foldl_nil, ih, List.filter_append,
      List.filter_append, List.getLast?_append, List.getLast?_append]
    cases he : e.named with
    | true => simp [he, prefer]; split <;> simp
    | false =>
      cases hnamed : (entries.filter (·.named == true)).getLast? with
      | some f =>
        have hf : f.named = true := by
          simpa using (List.mem_filter.1 (List.mem_of_getLast? hnamed)).2
        simp [he, hf, prefer]
      | none =>
        cases hother : (entries.filter (·.named == false)).getLast? with
        | none => simp [he, prefer]
        | some f =>
          have hf : f.named = false := by
            simpa using (List.mem_filter.1 (List.mem_of_getLast? hother)).2
          simp [he, hf, prefer]

/-- Of the named entries the last one, and else of the others. -/
theorem find?_eq (c : Catalogue) (kind : String) :
    c.find? kind = ((c.ofKind kind true).getLast?).or ((c.ofKind kind false).getLast?) := by
  rw [find?, foldl_prefer, List.filter_filter, List.filter_filter, ofKind, ofKind]
  simp only [Bool.and_comm]

theorem exists_last {named : Bool} (h : ∃ e ∈ c.entries, e.kind = kind ∧ e.named = named) :
    ∃ e, (c.ofKind kind named).getLast? = some e := by
  obtain ⟨e, he, hkind, hnamed⟩ := h
  have hmem : e ∈ c.ofKind kind named := mem_ofKind.2 ⟨he, hkind, hnamed⟩
  exact ⟨_, List.getLast?_eq_some_getLast (List.ne_nil_of_mem hmem)⟩

theorem getLast?_ofKind_iff {named : Bool} : (c.ofKind kind named).getLast? = some e ↔
    LastOf (fun e => e.kind = kind ∧ e.named = named) c.entries e := by
  rw [ofKind, ← lastOf_iff]
  simp

theorem getLast?_ofKind_eq_none_iff {named : Bool} : (c.ofKind kind named).getLast? = none ↔
    ∀ e ∈ c.entries, e.kind = kind → e.named ≠ named := by
  rw [List.getLast?_eq_none_iff, List.eq_nil_iff_forall_not_mem]
  simp only [mem_ofKind, not_and]

theorem find?_eq_none_iff : c.find? kind = none ↔ ∀ e ∈ c.entries, e.kind ≠ kind := by
  rw [find?_eq, Option.or_eq_none_iff, getLast?_ofKind_eq_none_iff, getLast?_ofKind_eq_none_iff]
  constructor
  · rintro ⟨hnamed, hother⟩ e he hkind
    cases hn : e.named with
    | true => exact hnamed e he hkind hn
    | false => exact hother e he hkind hn
  · intro h
    exact ⟨fun e he hkind => absurd hkind (h e he), fun e he hkind => absurd hkind (h e he)⟩

/-- The last named entry of the kind, or the last one where none is named. -/
theorem find?_eq_some_iff : c.find? kind = some e ↔
    LastOf (fun e => e.kind = kind ∧ e.named = true) c.entries e ∨
    (∀ f ∈ c.entries, f.kind = kind → f.named ≠ true) ∧
      LastOf (fun e => e.kind = kind ∧ e.named = false) c.entries e := by
  rw [find?_eq, Option.or_eq_some_iff, getLast?_ofKind_iff, getLast?_ofKind_iff,
    getLast?_ofKind_eq_none_iff]

theorem LastOf.mem (h : LastOf P entries e) : e ∈ entries ∧ P e := by
  obtain ⟨before, after, rfl, he, -⟩ := h
  exact ⟨by simp, he⟩

theorem find?_named_iff : (∃ e, c.find? kind = some e ∧ e.named = true) ↔
    kind ∈ c.named.map (·.kind) := by
  rw [List.mem_map]
  constructor
  · rintro ⟨e, hfind, hnamed⟩
    rcases find?_eq_some_iff.1 hfind with hlast | ⟨-, hlast⟩
    · exact ⟨e, List.mem_filter.2 ⟨hlast.mem.1, hnamed⟩, hlast.mem.2.1⟩
    · rw [hlast.mem.2.2] at hnamed
      cases hnamed
  · rintro ⟨f, hf, hkind⟩
    obtain ⟨hmem, hnamed⟩ := List.mem_filter.1 hf
    obtain ⟨e, he⟩ := exists_last ⟨f, hmem, hkind, hnamed⟩
    have hlast := getLast?_ofKind_iff.1 he
    exact ⟨e, find?_eq_some_iff.2 (.inl hlast), hlast.mem.2.2⟩

/-! ## Other entries -/

/-- Lists that differ by entries of one sort, which have come and gone anywhere. -/
inductive Differ (P : KindEntry → Prop) : List KindEntry → List KindEntry → Prop
  | nil : Differ P [] []
  | keep {e : KindEntry} {entries others : List KindEntry} (h : Differ P entries others) :
      Differ P (e :: entries) (e :: others)
  | insert {e : KindEntry} {entries others : List KindEntry} (he : P e)
      (h : Differ P entries others) : Differ P entries (e :: others)
  | remove {e : KindEntry} {entries others : List KindEntry} (he : P e)
      (h : Differ P entries others) : Differ P (e :: entries) others

theorem Differ.filter_eq (h : Differ P entries others) (hp : ∀ e, P e → p e = false) :
    entries.filter p = others.filter p := by
  induction h with
  | nil => rfl
  | keep _ ih => rw [List.filter_cons, List.filter_cons, ih]
  | insert he _ ih => rw [ih, List.filter_cons, hp _ he, if_neg Bool.false_ne_true]
  | remove he _ ih => rw [← ih, List.filter_cons, hp _ he, if_neg Bool.false_ne_true]

theorem find?_of_differ_elsewhere (h : Differ (·.kind ≠ kind) c.entries d.entries) :
    c.find? kind = d.find? kind := by
  have hsame : ∀ named, c.ofKind kind named = d.ofKind kind named := by
    intro named
    exact h.filter_eq fun e he => by simp [he]
  rw [find?_eq, find?_eq, hsame, hsame]

theorem find?_of_differ_beside_named (hnamed : ∃ e ∈ c.entries, e.kind = kind ∧ e.named = true)
    (h : Differ (fun e => e.kind ≠ kind ∨ e.named = false) c.entries d.entries) :
    c.find? kind = d.find? kind := by
  have hsame : c.ofKind kind true = d.ofKind kind true := by
    refine h.filter_eq fun e he => ?_
    rcases he with he | he <;> simp [he]
  obtain ⟨e, he⟩ := exists_last hnamed
  rw [find?_eq, find?_eq, ← hsame, he]
  rfl

/-! ## Other orders -/

/-- The same entries in another order, in which those of one kind that are alike named keep their
order. -/
def Reordered (c d : Catalogue) : Prop :=
  ∃ place : Fin c.entries.length ≃ Fin d.entries.length,
    (∀ i, d.entries.get (place i) = c.entries.get i) ∧
    ∀ i j, i < j → (c.entries.get i).kind = (c.entries.get j).kind →
      (c.entries.get i).named = (c.entries.get j).named → place i < place j

theorem Reordered.symm (h : Reordered c d) : Reordered d c := by
  obtain ⟨place, hentry, hkeeps⟩ := h
  have hback : ∀ i, c.entries.get (place.symm i) = d.entries.get i := by
    intro i
    rw [← hentry, Equiv.apply_symm_apply]
  refine ⟨place.symm, hback, ?_⟩
  intro i j hij hkind hnamed
  rw [← hback, ← hback] at hkind hnamed
  rcases lt_trichotomy (place.symm i) (place.symm j) with hlt | heq | hgt
  · exact hlt
  · obtain rfl := place.symm.injective heq
    exact absurd hij (lt_irrefl i)
  · have hji := hkeeps _ _ hgt hkind.symm hnamed.symm
    rw [Equiv.apply_symm_apply, Equiv.apply_symm_apply] at hji
    exact absurd (hij.trans hji) (lt_irrefl i)

theorem lastOf_iff_get : LastOf P entries e ↔
    ∃ i, entries.get i = e ∧ P e ∧ ∀ j, i < j → ¬ P (entries.get j) := by
  constructor
  · rintro ⟨before, after, rfl, he, hafter⟩
    refine ⟨⟨before.length, by simp⟩, by simp, he, ?_⟩
    intro j hj
    have hlt : before.length < j.val := hj
    refine hafter _ ?_
    rw [List.get_eq_getElem, List.getElem_append_right hlt.le, List.getElem_cons,
      dif_neg (by omega)]
    exact List.getElem_mem _
  · rintro ⟨i, rfl, he, hafter⟩
    refine ⟨entries.take i, entries.drop (i + 1), ?_, he, ?_⟩
    · rw [List.get_eq_getElem, ← List.drop_eq_getElem_cons i.isLt, List.take_append_drop]
    · intro f hf
      obtain ⟨j, hj, rfl⟩ := List.mem_iff_getElem.1 hf
      rw [List.length_drop] at hj
      rw [List.getElem_drop]
      exact hafter ⟨i + 1 + j, by omega⟩ (by rw [Fin.lt_def]; simp only; omega)

/-- The last entry of a kind among those that are alike stays the last one. -/
theorem Reordered.lastOf (h : Reordered c d) {named : Bool}
    (he : LastOf (fun e => e.kind = kind ∧ e.named = named) c.entries e) :
    LastOf (fun e => e.kind = kind ∧ e.named = named) d.entries e := by
  obtain ⟨place, hentry, hkeeps⟩ := h
  obtain ⟨i, hi, ⟨hkind, hnamed⟩, hafter⟩ := lastOf_iff_get.1 he
  refine lastOf_iff_get.2 ⟨place i, by rw [hentry, hi], ⟨hkind, hnamed⟩, ?_⟩
  intro j hj hlike
  obtain ⟨j, rfl⟩ := place.surjective j
  rw [hentry] at hlike
  -- an entry that is alike and comes later now came later before
  rcases lt_trichotomy i j with hlt | rfl | hgt
  · exact hafter j hlt hlike
  · exact lt_irrefl _ hj
  · have hji := hkeeps j i hgt (by rw [hlike.1, hi, hkind]) (by rw [hlike.2, hi, hnamed])
    exact lt_irrefl _ (hj.trans hji)

theorem find?_of_reordered (h : Reordered c d) (kind : String) : c.find? kind = d.find? kind := by
  have hsame : ∀ named, (c.ofKind kind named).getLast? = (d.ofKind kind named).getLast? := by
    intro named
    apply Option.ext
    intro e
    rw [getLast?_ofKind_iff, getLast?_ofKind_iff]
    exact ⟨h.lastOf, h.symm.lastOf⟩
  rw [find?_eq, find?_eq, hsame, hsame]

/-! ## What a look-up gives -/

/-- A look-up gives the last named entry of the kind, or its last entry where none is named. Other
entries have no effect, and neither has the order of entries that are not alike. -/
theorem find?_last_named (kind : String) :
    (∀ c : Catalogue, c.find? kind = none ↔ ∀ e ∈ c.entries, e.kind ≠ kind) ∧
    (∀ (c : Catalogue) (e : KindEntry), c.find? kind = some e ↔
      LastOf (fun e => e.kind = kind ∧ e.named = true) c.entries e ∨
      (∀ f ∈ c.entries, f.kind = kind → f.named ≠ true) ∧
        LastOf (fun e => e.kind = kind ∧ e.named = false) c.entries e) ∧
    (∀ c : Catalogue, (∃ e, c.find? kind = some e ∧ e.named = true) ↔
      kind ∈ c.named.map (·.kind)) ∧
    (∀ c d : Catalogue, Differ (·.kind ≠ kind) c.entries d.entries →
      c.find? kind = d.find? kind) ∧
    (∀ c d : Catalogue, (∃ e ∈ c.entries, e.kind = kind ∧ e.named = true) →
      Differ (fun e => e.kind ≠ kind ∨ e.named = false) c.entries d.entries →
      c.find? kind = d.find? kind) ∧
    ∀ c d : Catalogue, Reordered c d → c.find? kind = d.find? kind :=
  ⟨fun _ => find?_eq_none_iff, fun _ _ => find?_eq_some_iff, fun _ => find?_named_iff,
    fun _ _ => find?_of_differ_elsewhere, fun _ _ => find?_of_differ_beside_named,
    fun _ _ h => find?_of_reordered h kind⟩

/-- A keyword that is also a token, and is listed twice as a kind. -/
theorem find?_last_named_keyword :
    let entry (kind : String) (named : Bool) (subtypes : Option (List KindRef)) : KindEntry :=
      ⟨kind, named, ∅, none, subtypes⟩
    let first := entry "if" true none
    let last := entry "if" true (some [])
    let token := entry "if" false none
    let other := entry "do" true none
    let c : Catalogue := ⟨[first, last, token]⟩
    let longer : Catalogue := ⟨[other, first, last, other, token]⟩
    let fuller : Catalogue := ⟨[first, token, last, token]⟩
    let turned : Catalogue := ⟨[token, first, last]⟩
    Differ (·.kind ≠ "if") c.entries longer.entries ∧
    Differ (fun e => e.kind ≠ "if" ∨ e.named = false) c.entries fuller.entries ∧
    Reordered c turned ∧
    c.find? "if" = some last ∧ longer.find? "if" = some last ∧ fuller.find? "if" = some last ∧
    turned.find? "if" = some last := by
  intro entry first last token other c longer fuller turned
  have hlonger : Differ (·.kind ≠ "if") c.entries longer.entries :=
    .insert (by decide) (.keep (.keep (.insert (by decide) (.keep .nil))))
  have hfuller : Differ (fun e => e.kind ≠ "if" ∨ e.named = false) c.entries fuller.entries :=
    .keep (.insert (by decide) (.keep (.keep .nil)))
  have hturned : Reordered c turned :=
    ⟨(⟨(· + 1), (· + 2), by rw [Function.LeftInverse]; decide,
      by rw [Function.RightInverse, Function.LeftInverse]; decide⟩ : Fin 3 ≃ Fin 3),
      by decide, by decide⟩
  have hfind : c.find? "if" = some last := by decide
  obtain ⟨-, -, -, helsewhere, hbeside, hreordered⟩ := find?_last_named "if"
  refine ⟨hlonger, hfuller, hturned, hfind, ?_, ?_, ?_⟩
  · rw [← helsewhere c longer hlonger, hfind]
  · rw [← hbeside c fuller ⟨first, by decide, by decide⟩ hfuller, hfind]
  · rw [← hreordered c turned hturned, hfind]

end Catalogue
end GrammarModule
