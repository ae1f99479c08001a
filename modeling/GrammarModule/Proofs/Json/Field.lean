import GrammarModule.Proofs.Json.Grammar
import Mathlib.Data.List.Nodup

/-!
# GrammarModule.Proofs.Json.Field

Records by their fields. Members in any order fill the fields of a record one at a time; where the
fields are independent (`Independent`), members lead to a record exactly when they give it field by
field (`given_of_steps`, `exists_steps`), which with the required keys there is what it states
(`Field.stated_iff`), and a list of values fills the leading fields (`filled_iff_listed`). No reader
is involved here.
-/

namespace GrammarModule
namespace Json

variable {σ ρ : Type}

/-- The changes of members in written order. -/
inductive Steps (Step : σ → String × List Char → σ → Prop) :
    σ → List (String × List Char) → σ → Prop
  | nil {s : σ} : Steps Step s [] s
  | cons {s s' s'' : σ} {m : String × List Char} {ms : List (String × List Char)}
      (h : Step s m s') (hs : Steps Step s' ms s'') : Steps Step s (m :: ms) s''

/-- Fields with different keys that can be set each on its own and that make up the record. -/
structure Independent (fields : List (Field ρ)) : Prop where
  keys : (fields.map (·.key)).Nodup
  get_set : ∀ f ∈ fields, ∀ r v, f.get (f.set r v) = v
  get_set_ne : ∀ f ∈ fields, ∀ g ∈ fields, g.key ≠ f.key → ∀ r v, g.get (f.set r v) = g.get r
  ext : ∀ r s, (∀ f ∈ fields, f.get r = f.get s) → r = s

theorem Independent.eq_of_key {fields : List (Field ρ)} (h : Independent fields) {f g : Field ρ}
    (hf : f ∈ fields) (hg : g ∈ fields) (hkey : f.key = g.key) : f = g :=
  List.inj_on_of_nodup_map h.keys hf hg hkey

/-! ## Members -/

theorem textsUnder_cons (key : String) (m : String × List Char)
    (ms : List (String × List Char)) : textsUnder key (m :: ms) =
      if m.1 = key then m.2 :: textsUnder key ms else textsUnder key ms := by
  by_cases h : m.1 = key <;> simp [textsUnder, h]

/-- What one member does to the record and to the known keys that have been seen. -/
inductive FillsMember (fields : List (Field ρ)) :
    ρ × List String → String × List Char → ρ × List String → Prop
  | other {s : ρ × List String} {m : String × List Char} (hm : ∀ f ∈ fields, f.key ≠ m.1)
      (h : IsValue m.2) : FillsMember fields s m s
  | field {r : ρ} {keys : List String} {f : Field ρ} {t : List Char} {v : f.Val}
      (hf : f ∈ fields) (hnew : f.key ∉ keys) (h : f.Text v t) :
      FillsMember fields (r, keys) (f.key, t) (f.set r v, f.key :: keys)

/-- What becomes of a field when members are read: it keeps its value, or one member gives it. -/
def Field.Given (f : Field ρ) (r : ρ) (keys : List String) (ms : List (String × List Char))
    (s : ρ) : Prop :=
  (textsUnder f.key ms = [] ∧ f.get s = f.get r) ∨
    ∃ t, textsUnder f.key ms = [t] ∧ f.Text (f.get s) t ∧ f.key ∉ keys

variable {fields : List (Field ρ)}

theorem given_of_steps (hi : Independent fields) {state state' : ρ × List String}
    {ms : List (String × List Char)} (h : Steps (FillsMember fields) state ms state') :
    (∀ f ∈ fields, f.Given state.1 state.2 ms state'.1 ∧
      (f.key ∈ state'.2 ↔ f.key ∈ state.2 ∨ textsUnder f.key ms ≠ [])) ∧
    ∀ m ∈ ms, (∀ f ∈ fields, f.key ≠ m.1) → IsValue m.2 := by
  induction h with
  | nil => exact ⟨fun f _ => ⟨.inl ⟨rfl, rfl⟩, by simp [textsUnder]⟩, by simp⟩
  | @cons _ _ state'' m ms hm _ ih =>
    obtain ⟨ihf, ihv⟩ := ih
    cases hm with
    | other hother hvalue =>
      refine ⟨?_, List.forall_mem_cons.2 ⟨fun _ => hvalue, ihv⟩⟩
      intro f hf
      have htexts : textsUnder f.key (m :: ms) = textsUnder f.key ms := by
        rw [textsUnder_cons, if_neg (fun h => hother f hf h.symm)]
      rw [Field.Given, htexts]
      exact ihf f hf
    | @field r keys g t v hg hnew htext =>
      refine ⟨?_, List.forall_mem_cons.2 ⟨fun h => absurd rfl (h g hg), ihv⟩⟩
      intro f hf
      obtain ⟨hgiven, hkeys⟩ := ihf f hf
      rw [Field.Given, textsUnder_cons]
      by_cases hkey : g.key = f.key
      · -- the key has been seen now, so no later member has it
        obtain rfl := hi.eq_of_key hg hf hkey
        rw [if_pos rfl]
        rcases hgiven with ⟨hnil, hget⟩ | ⟨_, _, _, hnot⟩
        · rw [hi.get_set g hg] at hget
          refine ⟨.inr ⟨t, by rw [hnil], hget ▸ htext, hnew⟩, ?_⟩
          rw [hkeys]
          simp
        · exact absurd (List.mem_cons_self) hnot
      · rw [if_neg hkey]
        have hne : f.key ≠ g.key := fun h => hkey h.symm
        rw [Field.Given, hi.get_set_ne g hg f hf hne, List.mem_cons, or_iff_right hne] at hgiven
        rw [List.mem_cons, or_iff_right hne] at hkeys
        exact ⟨hgiven, hkeys⟩

/-- Members that state a record lead to it. -/
theorem exists_steps (hi : Independent fields) {r s : ρ} {keys : List String}
    {ms : List (String × List Char)} (h : ∀ f ∈ fields, f.Given r keys ms s)
    (hvalues : ∀ m ∈ ms, (∀ f ∈ fields, f.key ≠ m.1) → IsValue m.2) :
    ∃ keys', Steps (FillsMember fields) (r, keys) ms (s, keys') := by
  induction ms generalizing r keys with
  | nil =>
    have hrs : s = r := by
      apply hi.ext
      intro f hf
      rcases h f hf with ⟨-, hget⟩ | ⟨t, ht, -⟩
      · exact hget
      · cases ht
    subst hrs
    exact ⟨keys, .nil⟩
  | cons m ms ih =>
    obtain ⟨hvalue, hrest⟩ := List.forall_mem_cons.1 hvalues
    by_cases hknown : ∃ f ∈ fields, f.key = m.1
    · obtain ⟨f, hf, hkey⟩ := hknown
      obtain ⟨key, t⟩ := m
      obtain rfl : f.key = key := hkey
      have hgiven := h f hf
      rw [Field.Given, textsUnder_cons, if_pos rfl] at hgiven
      obtain ⟨hnil, -⟩ | ⟨u, hu, htext, hnew⟩ := hgiven
      · cases hnil
      · injection hu with htu hnil
        subst htu
        have hset : ∀ g ∈ fields, g.Given (f.set r (f.get s)) (f.key :: keys) ms s := by
          intro g hg
          by_cases hkey : g.key = f.key
          · obtain rfl := hi.eq_of_key hg hf hkey
            exact .inl ⟨hnil, (hi.get_set g hg r _).symm⟩
          · have hgiven := h g hg
            rw [Field.Given, textsUnder_cons, if_neg fun h => hkey h.symm] at hgiven
            rw [Field.Given, hi.get_set_ne f hf g hg hkey, List.mem_cons, or_iff_right hkey]
            exact hgiven
        obtain ⟨keys', hsteps⟩ := ih hset hrest
        exact ⟨keys', .cons (.field hf hnew htext) hsteps⟩
    · have hother : ∀ f ∈ fields, f.key ≠ m.1 := fun f hf h => hknown ⟨f, hf, h⟩
      have hkept : ∀ g ∈ fields, g.Given r keys ms s := by
        intro g hg
        have hgiven := h g hg
        rw [Field.Given, textsUnder_cons, if_neg fun h => hother g hg h.symm] at hgiven
        exact hgiven
      obtain ⟨keys', hsteps⟩ := ih hkept hrest
      exact ⟨keys', .cons (.other hother (hvalue hother)) hsteps⟩

theorem Field.stated_iff {f : Field ρ} {blank r : ρ} {ms : List (String × List Char)} :
    f.Stated blank r (textsUnder f.key ms) ↔
      f.Given blank [] ms r ∧ (f.required = true → textsUnder f.key ms ≠ []) := by
  constructor
  · intro h
    cases hms : textsUnder f.key ms with
    | nil =>
      rw [hms] at h
      cases h with
      | absent hf hget => exact ⟨.inl ⟨hms, hget⟩, by simp [hf]⟩
    | cons t ts =>
      rw [hms] at h
      cases h with
      | once ht => exact ⟨.inr ⟨t, hms, ht, by simp⟩, by simp⟩
  · rintro ⟨⟨hnil, hget⟩ | ⟨t, ht, htext, -⟩, hrequired⟩
    · rw [hnil]
      refine .absent ?_ hget
      by_contra hf
      exact hrequired (by simpa using hf) hnil
    · rw [ht]
      exact .once htext

/-! ## Lists -/

/-- Values in declared order fill the leading fields. -/
inductive Filled : List (Field ρ) → ρ → List (List Char) → ρ → Prop
  | rest {fs : List (Field ρ)} {r : ρ} (h : ∀ f ∈ fs, f.required = false) : Filled fs r [] r
  | cons {f : Field ρ} {fs : List (Field ρ)} {r s : ρ} {v : f.Val} {t : List Char}
      {ts : List (List Char)} (h : f.Text v t) (hs : Filled fs (f.set r v) ts s) :
      Filled (f :: fs) r (t :: ts) s

/-- The fields that come later are those that have their defaults still. -/
theorem listed_of_filled (hi : Independent fields) {blank r s : ρ} {fs : List (Field ρ)}
    {ts : List (List Char)} (h : Filled fs r ts s) (hsub : ∀ f ∈ fs, f ∈ fields)
    (hkeys : (fs.map (·.key)).Nodup) (hblank : ∀ f ∈ fs, f.get r = f.get blank) :
    Field.Listed blank s fs ts ∧ ∀ g ∈ fields, (∀ f ∈ fs, f.key ≠ g.key) → g.get s = g.get r := by
  induction h with
  | rest hrest => exact ⟨.rest fun f hf => ⟨hrest f hf, hblank f hf⟩, fun _ _ _ => rfl⟩
  | @cons f fs r s v t ts htext _ ih =>
    obtain ⟨hf, hsub⟩ := List.forall_mem_cons.1 hsub
    obtain ⟨-, hblank⟩ := List.forall_mem_cons.1 hblank
    rw [List.map_cons, List.nodup_cons] at hkeys
    obtain ⟨hnew, hkeys⟩ := hkeys
    have hne : ∀ g ∈ fs, g.key ≠ f.key := fun g hg h => hnew (h ▸ List.mem_map_of_mem hg)
    obtain ⟨hlisted, hsame⟩ := ih hsub hkeys (by
      intro g hg
      rw [hi.get_set_ne f hf g (hsub g hg) (hne g hg)]
      exact hblank g hg)
    refine ⟨.cons ?_ hlisted, ?_⟩
    · rw [hsame f hf hne, hi.get_set f hf]
      exact htext
    · intro g hg hother
      obtain ⟨hgf, hother⟩ := List.forall_mem_cons.1 hother
      rw [hsame g hg hother, hi.get_set_ne f hf g hg (Ne.symm hgf)]

theorem filled_of_listed (hi : Independent fields) {blank r s : ρ} {fs : List (Field ρ)}
    {ts : List (List Char)} (h : Field.Listed blank s fs ts) (hsub : ∀ f ∈ fs, f ∈ fields)
    (hkeys : (fs.map (·.key)).Nodup) (hblank : ∀ f ∈ fs, f.get r = f.get blank)
    (hsame : ∀ g ∈ fields, (∀ f ∈ fs, f.key ≠ g.key) → g.get s = g.get r) :
    Filled fs r ts s := by
  induction h generalizing r with
  | @rest fs hrest =>
    have hrs : s = r := by
      apply hi.ext
      intro g hg
      by_cases hmem : ∃ f ∈ fs, f.key = g.key
      · obtain ⟨f, hf, hkey⟩ := hmem
        obtain rfl := hi.eq_of_key (hsub f hf) hg hkey
        rw [(hrest f hf).2, hblank f hf]
      · exact hsame g hg fun f hf h => hmem ⟨f, hf, h⟩
    subst hrs
    exact .rest fun f hf => (hrest f hf).1
  | @cons f fs t ts htext _ ih =>
    obtain ⟨hf, hsub⟩ := List.forall_mem_cons.1 hsub
    obtain ⟨-, hblank⟩ := List.forall_mem_cons.1 hblank
    rw [List.map_cons, List.nodup_cons] at hkeys
    obtain ⟨hnew, hkeys⟩ := hkeys
    have hne : ∀ g ∈ fs, g.key ≠ f.key := fun g hg h => hnew (h ▸ List.mem_map_of_mem hg)
    refine .cons htext (ih hsub hkeys ?_ ?_)
    · intro g hg
      rw [hi.get_set_ne f hf g (hsub g hg) (hne g hg)]
      exact hblank g hg
    · intro g hg hother
      by_cases hkey : g.key = f.key
      · obtain rfl := hi.eq_of_key hg hf hkey
        rw [hi.get_set g hg]
      · rw [hi.get_set_ne f hf g hg hkey]
        exact hsame g hg (List.forall_mem_cons.2 ⟨fun h => hkey h.symm, hother⟩)

theorem filled_iff_listed (hi : Independent fields) {blank s : ρ} {ts : List (List Char)} :
    Filled fields blank ts s ↔ Field.Listed blank s fields ts := by
  constructor
  · intro h
    exact (listed_of_filled hi h (fun _ hf => hf) hi.keys fun _ _ => rfl).1
  · intro h
    exact filled_of_listed hi h (fun _ hf => hf) hi.keys (fun _ _ => rfl)
      fun g hg hother => absurd rfl (hother g hg)

end Json
end GrammarModule
