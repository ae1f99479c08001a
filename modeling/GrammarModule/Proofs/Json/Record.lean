import GrammarModule.Json.Record
import GrammarModule.Proofs.Json.Field
import GrammarModule.Proofs.Json.Law

/-!
# GrammarModule.Proofs.Json.Record

The law of a record format. A format fits a list of fields when its members fill them one by one
(`RecordFormat.Fits`); then it reads exactly the objects and the lists that spell a record, and
writes one of them (`RecordFormat.Fits.law`).
-/

namespace GrammarModule
namespace Json

variable {ρ α : Type}

/-! ## Members and fields -/

/-- Reading the member sets the field, and writing it leaves out nothing but the default. -/
structure Member.Fills (member : Member ρ) (f : Field ρ) (blank : ρ) : Prop where
  key : member.key = f.key
  required : member.required = f.required
  reads : ∀ r r' c d, member.read r c = .ok (r', d) ↔
    ∃ v b t, Blanks b ∧ f.Text v t ∧ c.Past (b ++ t) d ∧ r' = f.set r v
  opens : ∀ v t, f.Text v t → Opens t
  write_some : ∀ r value, member.write r = some value → f.Text (f.get r) value.compact
  write_none : ∀ r, member.write r = none → f.required = false ∧ f.get r = f.get blank

theorem store_eq_ok_iff {codec : Codec α} {R : α → List Char → Prop} (h : codec.Law R)
    {set : ρ → α → ρ} {r r' : ρ} {c d : Cursor} :
    Member.store codec set r c = .ok (r', d) ↔
      ∃ v b t, Blanks b ∧ R v t ∧ c.Past (b ++ t) d ∧ r' = set r v := by
  rw [Member.store, bind_eq_ok_iff]
  constructor
  · rintro ⟨⟨v, e⟩, hv, hr⟩
    cases hr
    obtain ⟨b, t, hb, ht, hp⟩ := (h.reads v _ _).1 hv
    exact ⟨v, b, t, hb, ht, hp, rfl⟩
  · rintro ⟨v, b, t, hb, ht, hp, rfl⟩
    exact ⟨_, (h.reads v _ _).2 ⟨b, t, hb, ht, hp⟩, rfl⟩

theorem ofRequired_fills {codec : Codec α} {R : α → List Char → Prop} (h : codec.Law R)
    (key : String) (get : ρ → α) (set : ρ → α → ρ) (blank : ρ) :
    (Member.ofRequired key codec get set).Fills ⟨key, true, α, get, set, R⟩ blank where
  key := rfl
  required := rfl
  reads _ _ _ _ := store_eq_ok_iff h
  opens := h.opens
  write_some := by
    intro r value hw
    cases hw
    exact h.writes (get r)
  write_none := by
    intro r hw
    cases hw

theorem ofOptional_fills {codec : Codec α} {R : α → List Char → Prop} (h : codec.Law R)
    (key : String) (omitted : α → Bool) (get : ρ → α) (set : ρ → α → ρ) (blank : ρ)
    (homitted : ∀ v, omitted v = true → v = get blank) :
    (Member.ofOptional key codec omitted get set).Fills ⟨key, false, α, get, set, R⟩ blank where
  key := rfl
  required := rfl
  reads _ _ _ _ := store_eq_ok_iff h
  opens := h.opens
  write_some := by
    intro r value hw
    simp only [Member.ofOptional] at hw
    split at hw
    · cases hw
    · cases hw
      exact h.writes (get r)
  write_none := by
    intro r hw
    simp only [Member.ofOptional] at hw
    split at hw
    · next hr => exact ⟨rfl, homitted _ hr⟩
    · cases hw

/-- The members of a format fill the fields in order, the required ones first. -/
structure RecordFormat.Fits (format : RecordFormat ρ) (fields : List (Field ρ)) : Prop where
  independent : Independent fields
  fills : List.Forall₂ (fun m f => m.Fills f format.blank) format.members fields
  requiredFirst : fields.Pairwise fun f g => f.required = false → g.required = false

namespace RecordFormat.Fits

variable {format : RecordFormat ρ} {fields : List (Field ρ)}

/-! ## Objects -/

theorem find?_eq_none_iff {members : List (Member ρ)} {blank : ρ} {key : String}
    (h : List.Forall₂ (fun m f => m.Fills f blank) members fields) :
    members.find? (·.key == key) = none ↔ ∀ f ∈ fields, f.key ≠ key := by
  induction h with
  | nil => simp
  | cons hm _ ih =>
    rw [List.find?_cons, hm.key, List.forall_mem_cons, ← ih]
    split <;> simp_all

theorem exists_field_of_mem {members : List (Member ρ)} {blank : ρ} {m : Member ρ}
    (h : List.Forall₂ (fun m f => m.Fills f blank) members fields) (hm : m ∈ members) :
    ∃ f ∈ fields, m.Fills f blank := by
  induction h with
  | nil => cases hm
  | @cons m' f _ _ hf _ ih =>
    rcases List.mem_cons.1 hm with rfl | hm
    · exact ⟨f, by simp, hf⟩
    · obtain ⟨g, hg, hfills⟩ := ih hm
      exact ⟨g, by simp [hg], hfills⟩

theorem exists_field {members : List (Member ρ)} {blank : ρ} {key : String} {m : Member ρ}
    (h : List.Forall₂ (fun m f => m.Fills f blank) members fields)
    (hm : members.find? (·.key == key) = some m) :
    ∃ f ∈ fields, m.Fills f blank ∧ f.key = key := by
  obtain ⟨f, hf, hfills⟩ := exists_field_of_mem h (List.mem_of_find?_eq_some hm)
  have hkey := List.find?_some hm
  exact ⟨f, hf, hfills, by simpa [hfills.key] using hkey⟩

theorem readsMember (h : format.Fits fields) :
    ReadsMember format.readMember (FillsMember fields) where
  sound := by
    intro s s' key c d hread
    simp only [readMember, member?] at hread
    split at hread
    · next hnone =>
      obtain ⟨e, he, hread⟩ := bind_eq_ok_iff.1 hread
      obtain ⟨f, hskip, hread⟩ := bind_eq_ok_iff.1 hread
      cases hread
      obtain ⟨b, hb, hp⟩ := expectColon_eq_ok_iff.1 he
      obtain ⟨b', t, hb', ht, hpt⟩ := skipValue_sound hskip
      exact ⟨b, b', t, hb, hb', by simpa using hp.trans hpt,
        .other ((find?_eq_none_iff h.fills).1 hnone) ht⟩
    · next m hm =>
      obtain ⟨f, hf, hfills, rfl⟩ := exists_field h.fills hm
      split at hread
      · cases hread
      · next hnew =>
        obtain ⟨e, he, hread⟩ := bind_eq_ok_iff.1 hread
        obtain ⟨⟨r, g⟩, hr, hread⟩ := bind_eq_ok_iff.1 hread
        cases hread
        obtain ⟨b, hb, hp⟩ := expectColon_eq_ok_iff.1 he
        obtain ⟨v, b', t, hb', ht, hpt, rfl⟩ := (hfills.reads _ _ _ _).1 hr
        exact ⟨b, b', t, hb, hb', by simpa using hp.trans hpt, .field hf (by simpa using hnew) ht⟩
  accepts := by
    intro s s' key c d b b' t hb hb' hp hstep hends
    rw [List.append_cons] at hp
    obtain ⟨e, he, hpt⟩ := Cursor.past_append_iff.1 hp
    have hcolon := expectColon_eq_ok_iff.2 ⟨b, hb, he⟩
    cases hstep with
    | other hother hvalue =>
      simp only [readMember, member?, (find?_eq_none_iff h.fills).2 hother, bind, Except.bind,
        hcolon, skipValue_of_past hb' hvalue hpt hends]
    | @field r keys f t v hf hnew htext =>
      cases hm : format.members.find? (·.key == f.key) with
      | none => exact absurd rfl ((find?_eq_none_iff h.fills).1 hm f hf)
      | some m =>
        obtain ⟨g, hg, hfills, hkey⟩ := exists_field h.fills hm
        obtain rfl := h.independent.eq_of_key hg hf hkey
        have hread := (hfills.reads r _ _ _).2 ⟨v, b', t, hb', htext, hpt, rfl⟩
        simp only [readMember, member?, hm, bind, Except.bind, hcolon, hread]
        rw [if_neg (by simpa using hnew)]

/-- A required member is missing exactly when its field has not been seen. -/
theorem find?_missing_eq_none_iff {members : List (Member ρ)} {blank : ρ} (keys : List String)
    (h : List.Forall₂ (fun m f => m.Fills f blank) members fields) :
    members.find? (fun m => m.required && !keys.contains m.key) = none ↔
      ∀ f ∈ fields, f.required = true → f.key ∈ keys := by
  induction h with
  | nil => simp
  | cons hm _ ih =>
    rw [List.find?_cons, hm.key, hm.required, List.forall_mem_cons, ← ih]
    split <;> simp_all

theorem readObject_sound (h : format.Fits fields) {c d : Cursor} {r : ρ}
    (hread : format.readObject c = .ok (r, d)) :
    ∃ t, RecordObject fields format.blank r ('\x7b' :: t) ∧ c.Past t d := by
  obtain ⟨⟨⟨s, keys⟩, e⟩, hmembers, hread⟩ := bind_eq_ok_iff.1 hread
  obtain ⟨ms, texts, t, hms, ht, hp, hsteps⟩ := readMembers_sound h.readsMember hmembers
  obtain ⟨hfields, hvalues⟩ := given_of_steps h.independent hsteps
  simp only at hread
  split at hread
  · cases hread
  · next hmissing =>
    cases hread
    refine ⟨t, ⟨ms, ⟨texts, hms, t, rfl, ht⟩, ?_, hvalues⟩, hp⟩
    intro f hf
    obtain ⟨hgiven, hkeys⟩ := hfields f hf
    refine Field.stated_iff.2 ⟨hgiven, fun hrequired => ?_⟩
    have hseen := (find?_missing_eq_none_iff _ h.fills).1 hmissing f hf hrequired
    simpa using hkeys.1 hseen

theorem readObject_of_past (h : format.Fits fields) {c d : Cursor} {r : ρ} {t : List Char}
    (hr : RecordObject fields format.blank r ('\x7b' :: t)) (hp : c.Past t d) :
    format.readObject c = .ok (r, d) := by
  obtain ⟨ms, ⟨texts, hms, t', heq, ht⟩, hstated, hvalues⟩ := hr
  injection heq with _ heq
  subst heq
  have hgiven : ∀ f ∈ fields, f.Given format.blank [] ms r := by
    intro f hf
    exact (Field.stated_iff.1 (hstated f hf)).1
  obtain ⟨keys, hsteps⟩ := exists_steps h.independent hgiven hvalues
  have hmissing := (find?_missing_eq_none_iff keys h.fills).2 (by
    intro f hf hrequired
    refine ((given_of_steps h.independent hsteps).1 f hf).2.2 (.inr ?_)
    exact (Field.stated_iff.1 (hstated f hf)).2 hrequired)
  have hread := readMembers_of_past h.readsMember.accepts hms ht hp hsteps
    (Nat.le_refl c.rest.length)
  simp only [readObject, hread, bind, Except.bind, hmissing]

/-! ## Lists -/

theorem readPositional_sound {members : List (Member ρ)} {fs : List (Field ρ)} {index : Nat}
    {r s : ρ} {c d : Cursor} (hfills : List.Forall₂ (fun m f => m.Fills f format.blank) members fs)
    (hfirst : fs.Pairwise fun f g => f.required = false → g.required = false)
    (hread : format.readPositional index r c members = .ok (s, d)) :
    ∃ ts t, Filled fs r ts s ∧ Items ']' (index == 0) ts t ∧ c.Past t d := by
  induction hfills generalizing index r c with
  | nil =>
    rw [readPositional] at hread
    obtain ⟨e, he, hread⟩ := bind_eq_ok_iff.1 hread
    cases hread
    obtain ⟨b, hb, hp⟩ := closeList_eq_ok_iff.1 he
    exact ⟨[], _, .rest (by simp), .close hb, hp⟩
  | @cons m f members fs hm _ ih =>
    obtain ⟨hf, hfirst⟩ := List.pairwise_cons.1 hfirst
    rw [readPositional] at hread
    obtain ⟨⟨more, e⟩, hnext, hread⟩ := bind_eq_ok_iff.1 hread
    cases more with
    | false =>
      obtain ⟨b, hb, hp⟩ := nextItem_false_iff.1 hnext
      simp only [Bool.false_eq_true, if_false] at hread
      split at hread
      · cases hread
      · next hrequired =>
        cases hread
        have hopt : f.required = false := by rw [← hm.required]; simpa using hrequired
        exact ⟨[], _, .rest (List.forall_mem_cons.2 ⟨hopt, fun g hg => hf g hg hopt⟩),
          .close hb, hp⟩
    | true =>
      obtain ⟨⟨lead, hlead, hp⟩, -⟩ := nextItem_true_iff.1 hnext
      simp only [if_true] at hread
      obtain ⟨⟨r', g⟩, hr, hread⟩ := bind_eq_ok_iff.1 hread
      obtain ⟨v, b, t, hb, htext, hpt, rfl⟩ := (hm.reads _ _ _ _).1 hr
      obtain ⟨ts, rest, hfilled, hitems, hpr⟩ := ih hfirst hread
      refine ⟨t :: ts, (lead ++ b) ++ (t ++ rest), .cons htext hfilled,
        .item (hlead.append hb) hitems, ?_⟩
      simpa using (hp.trans hpt).trans hpr

theorem readPositional_of_past {members : List (Member ρ)} {fs : List (Field ρ)} {index : Nat}
    {r s : ρ} {c d : Cursor} {ts : List (List Char)} {t : List Char}
    (hfills : List.Forall₂ (fun m f => m.Fills f format.blank) members fs)
    (hfilled : Filled fs r ts s) (hitems : Items ']' (index == 0) ts t) (hp : c.Past t d) :
    format.readPositional index r c members = .ok (s, d) := by
  induction hfills generalizing index r c ts t with
  | nil =>
    rw [readPositional]
    cases hfilled
    cases hitems with
    | close hb =>
      rw [closeList_eq_ok_iff.2 ⟨_, hb, hp⟩]
      rfl
  | @cons m f members fs hm _ ih =>
    rw [readPositional]
    cases hitems with
    | close hb =>
      cases hfilled with
      | rest hopt =>
        rw [nextItem_false_iff.2 ⟨_, hb, hp⟩]
        have hrequired : m.required = false := by
          rw [hm.required]
          exact hopt f (by simp)
        simp only [bind, Except.bind, Bool.false_eq_true, if_false, hrequired]
    | @item _ lead u rest us hlead hrest =>
      cases hfilled with
      | @cons _ _ _ _ v _ _ htext hfilled =>
        obtain ⟨e, he, hp'⟩ := Cursor.past_append_iff.1 hp
        obtain ⟨g, hg, hpr⟩ := Cursor.past_append_iff.1 hp'
        have hread := (hm.reads r _ _ _).2 ⟨v, [], u, blanks_nil, htext, hg, rfl⟩
        rw [nextItem_true_iff.2 ⟨⟨lead, hlead, he⟩, ((hm.opens v u htext).stands hg).1⟩]
        simp only [bind, Except.bind, if_true, hread]
        have hrest : Items ']' (index + 1 == 0) us rest := by simpa using hrest
        exact ih hfilled hrest hpr

/-! ## Writing -/

theorem textsUnder_write {members : List (Member ρ)} {blank : ρ} (r : ρ)
    (h : List.Forall₂ (fun m f => m.Fills f blank) members fields) {key : String}
    (hkey : ∀ f ∈ fields, f.key ≠ key) :
    textsUnder key ((members.filterMap fun m =>
      (m.write r).map fun value => (m.key, value)).map fun m => (m.1, m.2.compact)) = [] := by
  induction h with
  | nil => rfl
  | @cons m f _ _ hm _ ih =>
    obtain ⟨hne, hkey⟩ := List.forall_mem_cons.1 hkey
    rw [List.filterMap_cons]
    cases m.write r with
    | none => exact ih hkey
    | some value =>
      simp only [Option.map_some, List.map_cons, textsUnder_cons]
      rw [if_neg (by rw [hm.key]; exact hne)]
      exact ih hkey

/-- Each field is stated by what its member writes, or by its being left out. -/
theorem stated_write {members : List (Member ρ)} {blank : ρ} (r : ρ)
    (h : List.Forall₂ (fun m f => m.Fills f blank) members fields)
    (hkeys : (fields.map (·.key)).Nodup) :
    ∀ f ∈ fields, f.Stated blank r (textsUnder f.key ((members.filterMap fun m =>
      (m.write r).map fun value => (m.key, value)).map fun m => (m.1, m.2.compact))) := by
  induction h with
  | nil => simp
  | @cons m f _ fs hm hms ih =>
    rw [List.map_cons, List.nodup_cons] at hkeys
    obtain ⟨hnew, hkeys⟩ := hkeys
    have hne : ∀ g ∈ fs, g.key ≠ f.key := fun g hg h => hnew (h ▸ List.mem_map_of_mem hg)
    rw [List.filterMap_cons]
    cases hw : m.write r with
    | none =>
      obtain ⟨hopt, hget⟩ := hm.write_none r hw
      refine List.forall_mem_cons.2 ⟨?_, ih hkeys⟩
      simp only [Option.map_none]
      rw [textsUnder_write r hms hne]
      exact .absent hopt hget
    | some value =>
      simp only [Option.map_some, List.map_cons, textsUnder_cons, hm.key]
      refine List.forall_mem_cons.2 ⟨?_, fun g hg => ?_⟩
      · rw [if_pos rfl, textsUnder_write r hms hne]
        exact .once (hm.write_some r value hw)
      · rw [if_neg (hne g hg).symm]
        exact ih hkeys g hg

theorem recordObject_write (h : format.Fits fields) (r : ρ) :
    RecordObject fields format.blank r (format.write r).compact := by
  refine ⟨_, objectText_compact _, stated_write r h.fills h.independent.keys, ?_⟩
  intro m hm hother
  -- what is written stands under the key of a field
  obtain ⟨w, hw, rfl⟩ := List.mem_map.1 hm
  obtain ⟨member, hmember, hwrite⟩ := List.mem_filterMap.1 hw
  obtain ⟨v, -, rfl⟩ := Option.map_eq_some_iff.1 hwrite
  obtain ⟨f, hf, hfills⟩ := exists_field_of_mem h.fills hmember
  exact absurd hfills.key.symm (hother f hf)

/-! ## The law -/

theorem law (h : format.Fits fields) : format.codec.Law (RecordText fields format.blank) where
  reads := by
    intro r c d
    constructor
    · intro hread
      obtain ⟨b, hb, hp⟩ := c.exists_past_skipBlank
      simp only [codec, read] at hread
      split at hread
      · next hr =>
        obtain ⟨ts, t, hfilled, hitems, hpt⟩ :=
          readPositional_sound h.fills h.requiredFirst hread
        refine ⟨b, '[' :: t, hb, .inr ⟨ts, ⟨t, rfl, hitems⟩, ?_⟩,
          hp.trans ((Cursor.past_advance hr).trans hpt)⟩
        exact (filled_iff_listed h.independent).1 hfilled
      · next hr =>
        obtain ⟨t, ht, hpt⟩ := h.readObject_sound hread
        exact ⟨b, '\x7b' :: t, hb, .inl ht, hp.trans ((Cursor.past_advance hr).trans hpt)⟩
      · exact absurd hread refuseValue_ne_ok
    · rintro ⟨b, t, hb, ht, hp⟩
      rcases ht with ht | ⟨ts, ⟨t, rfl, hitems⟩, hlisted⟩
      · have hobject := ht
        obtain ⟨_, ⟨_, _, t, rfl, _⟩, _⟩ := hobject
        obtain ⟨hr, hpt⟩ := Cursor.rest_skipBlank_of_past hp hb (by decide)
        simp only [codec, read, hr]
        exact h.readObject_of_past ht hpt
      · obtain ⟨hr, hpt⟩ := Cursor.rest_skipBlank_of_past hp hb (by decide)
        simp only [codec, read, hr]
        exact readPositional_of_past h.fills ((filled_iff_listed h.independent).2 hlisted) hitems
          hpt
  opens := by
    rintro r t (⟨ms, ⟨texts, -, ht⟩, -⟩ | ⟨ts, ht, -⟩)
    · exact ht.opens
    · exact ht.opens
  writes r := .inl (h.recordObject_write r)

end RecordFormat.Fits

end Json
end GrammarModule
