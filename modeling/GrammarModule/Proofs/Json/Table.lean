import GrammarModule.Proofs.Json.Grammar

/-!
# GrammarModule.Proofs.Json.Table

Tables by their look-ups. Storing changes the look-up of one key (`get?_insert`), look-ups fix the
table (`ext_get?`), and a table filled in order holds what stands last under each key
(`get?_foldl_insert`).
-/

namespace GrammarModule
namespace Json
namespace Table

variable {α : Type}

/-- The look-up among entries. -/
def valueAt? (entries : List (String × α)) (key : String) : Option α :=
  (entries.find? fun e => e.1 == key).map (·.2)

theorem get?_eq (t : Table α) (key : String) : t.get? key = valueAt? t.entries key := rfl

theorem valueAt?_cons (e : String × α) (entries : List (String × α)) (key : String) :
    valueAt? (e :: entries) key = if e.1 = key then some e.2 else valueAt? entries key := by
  by_cases h : e.1 = key
  · simp [valueAt?, h]
  · simp [valueAt?, h]

/-- A key below all others is not there. -/
theorem valueAt?_eq_none {entries : List (String × α)} {key : String}
    (h : ∀ e ∈ entries, key < e.1) : valueAt? entries key = none := by
  simp only [valueAt?, Option.map_eq_none_iff, List.find?_eq_none, beq_iff_eq]
  intro e he heq
  exact absurd (heq ▸ h e he) (String.lt_irrefl key)

theorem valueAt?_insertEntry (key : String) (value : α) (entries : List (String × α))
    (other : String) : valueAt? (insertEntry key value entries) other =
      if key = other then some value else valueAt? entries other := by
  induction entries with
  | nil => rw [insertEntry, valueAt?_cons]
  | cons e rest ih =>
    obtain ⟨k, v⟩ := e
    rw [insertEntry]
    split
    · rw [valueAt?_cons]
    · next hge =>
      split
      · next hgt =>
        rw [valueAt?_cons, valueAt?_cons, ih]
        by_cases hk : k = other
        · subst hk
          have hne : key ≠ k := fun h => String.lt_irrefl k (h ▸ hgt)
          simp [hne]
        · simp [hk]
      · next hle =>
        have heq : key = k := String.le_antisymm (String.not_lt.1 hle) (String.not_lt.1 hge)
        subst heq
        rw [valueAt?_cons, valueAt?_cons]
        by_cases hk : key = other <;> simp [hk]

theorem get?_insert (t : Table α) (key : String) (value : α) (other : String) :
    (t.insert key value).get? other = if key = other then some value else t.get? other :=
  valueAt?_insertEntry key value t.entries other

theorem get?_empty (key : String) : (∅ : Table α).get? key = none := rfl

/-- A first key below that of other entries is missing there. -/
theorem not_lt_head {e f : String × α} {entries others : List (String × α)}
    (hf : ∀ g ∈ others, f.1 < g.1)
    (h : valueAt? (e :: entries) e.1 = valueAt? (f :: others) e.1) : ¬ e.1 < f.1 := by
  intro hlt
  have hbelow : ∀ g ∈ f :: others, e.1 < g.1 :=
    List.forall_mem_cons.2 ⟨hlt, fun g hg => String.lt_trans hlt (hf g hg)⟩
  rw [valueAt?_eq_none hbelow, valueAt?_cons, if_pos rfl] at h
  cases h

/-- Sorted entries are fixed by their look-ups. -/
theorem eq_of_valueAt {entries others : List (String × α)}
    (hs : entries.Pairwise fun a b => a.1 < b.1) (ht : others.Pairwise fun a b => a.1 < b.1)
    (h : ∀ key, valueAt? entries key = valueAt? others key) : entries = others := by
  induction entries generalizing others with
  | nil =>
    cases others with
    | nil => rfl
    | cons f others =>
      have hf := h f.1
      rw [valueAt?_cons, if_pos rfl] at hf
      cases hf
  | cons e entries ih =>
    cases others with
    | nil =>
      have he := h e.1
      rw [valueAt?_cons, if_pos rfl] at he
      cases he
    | cons f others =>
      obtain ⟨he, hs⟩ := List.pairwise_cons.1 hs
      obtain ⟨hf, ht⟩ := List.pairwise_cons.1 ht
      have hle := not_lt_head hf (h e.1)
      have hge := not_lt_head he (h f.1).symm
      have hkey : e.1 = f.1 := String.le_antisymm (String.not_lt.1 hge) (String.not_lt.1 hle)
      have hvalue : e.2 = f.2 := by
        have hk := h e.1
        rw [valueAt?_cons, if_pos rfl, valueAt?_cons, if_pos hkey.symm] at hk
        exact Option.some.inj hk
      have hrest : ∀ key, valueAt? entries key = valueAt? others key := by
        intro key
        by_cases hk : e.1 = key
        · rw [valueAt?_eq_none (hk ▸ he), valueAt?_eq_none (hk ▸ hkey ▸ hf)]
        · have hk' := h key
          rwa [valueAt?_cons, if_neg hk, valueAt?_cons, if_neg (hkey ▸ hk)] at hk'
      rw [ih hs ht hrest, Prod.ext hkey hvalue]

theorem ext_get? {t u : Table α} (h : ∀ key, t.get? key = u.get? key) : t = u :=
  ext (eq_of_valueAt t.sorted u.sorted h)

end Table

/-! ## The last value under a key -/

variable {α : Type}

theorem lastUnder_cons (key : String) (m : String × α) (ms : List (String × α)) :
    lastUnder key (m :: ms) =
      (lastUnder key ms).or (if m.1 = key then some m.2 else none) := by
  by_cases hm : m.1 = key
  · simp only [lastUnder, List.filter_cons, hm, beq_self_eq_true, if_true, List.getLast?_cons]
    cases (ms.filter fun m => m.1 == key).getLast? <;> simp
  · simp [lastUnder, hm]

/-- A table filled in order holds the last value under each key. -/
theorem Table.get?_foldl_insert (ms : List (String × α)) (t : Table α) (key : String) :
    (ms.foldl (fun t m => t.insert m.1 m.2) t).get? key = (lastUnder key ms).or (t.get? key) := by
  induction ms generalizing t with
  | nil => rfl
  | cons m ms ih =>
    rw [List.foldl_cons, ih, Table.get?_insert, lastUnder_cons]
    by_cases hm : m.1 = key <;> simp [hm]

/-- Under distinct keys nothing stands twice, so the last value is the one that is looked up. -/
theorem lastUnder_eq_valueAt {entries : List (String × α)}
    (h : entries.Pairwise fun a b => a.1 < b.1) (key : String) :
    lastUnder key entries = Table.valueAt? entries key := by
  induction entries with
  | nil => rfl
  | cons e entries ih =>
    obtain ⟨he, hs⟩ := List.pairwise_cons.1 h
    rw [lastUnder_cons, Table.valueAt?_cons, ih hs]
    by_cases hk : e.1 = key
    · rw [Table.valueAt?_eq_none (hk ▸ he), if_pos hk]
      rfl
    · simp [hk]

end Json
end GrammarModule
