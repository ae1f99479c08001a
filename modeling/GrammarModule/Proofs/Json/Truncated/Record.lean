import GrammarModule.Proofs.Json.Record
import GrammarModule.Proofs.Json.Truncated.Codec

/-!
# GrammarModule.Proofs.Json.Truncated.Record

Records up to a cut, in either notation. A member that is known is cut like its value, and one that
is ignored like a value that is skipped: only there a number may be torn. A format whose members are
cuttable is cuttable (`RecordFormat.Fits.cuttable`).
-/

namespace GrammarModule
namespace Json

variable {ρ α : Type}

/-! ## Members -/

/-- The texts that a member reads, taking one record to another. -/
def Member.Spells (member : Member ρ) (r r' : ρ) (t : List Char) : Prop :=
  ∀ c d : Cursor, c.Past t d → member.read r c = .ok (r', d)

theorem Member.Fills.spells_iff {member : Member ρ} {f : Field ρ} {blank r r' : ρ}
    (h : member.Fills f blank) {t : List Char} :
    member.Spells r r' t ↔ ∃ v b u, Blanks b ∧ f.Text v u ∧ r' = f.set r v ∧ t = b ++ u := by
  constructor
  · intro hspells
    have hp : (Cursor.mk .start t).Past t ⟨Position.start.afterText t, []⟩ := ⟨by simp, rfl⟩
    obtain ⟨v, b, u, hb, hu, hp', hset⟩ := (h.reads _ _ _ _).1 (hspells _ _ hp)
    exact ⟨v, b, u, hb, hu, hset, hp.text_unique hp'⟩
  · rintro ⟨v, b, u, hb, hu, rfl, rfl⟩ c d hp
    exact (h.reads _ _ _ _).2 ⟨v, b, u, hb, hu, hp, rfl⟩

/-- How a member of a record behaves up to a cut, after its key or in its place in a list. -/
def Member.Cuttable (member : Member ρ) : Prop :=
  ∀ r c s, Cut (ExtendsAt s) (fun x => TornAt (member.Spells r x.1) c s x.2) (member.read r c)
    (member.read r (c.extend s))

theorem ofRequired_cuttable {codec : Codec α} {R : α → List Char → Prop} (h : codec.Law R)
    (hcut : Json.Cuttable codec.read R) {key : String} {get : ρ → α} {set : ρ → α → ρ} :
    (Member.ofRequired key codec get set).Cuttable := by
  intro r c s
  refine (hcut.cut c s).bind ?_ ?_
  · rintro ⟨v, d⟩ _ - - rfl
    exact .ok rfl
  · rintro ⟨v, d⟩ x - htorn hx
    cases hx
    refine htorn.mono ?_
    rintro t ⟨b, u, hb, hu, rfl⟩ e f hp
    exact (store_eq_ok_iff h).2 ⟨v, b, u, hb, hu, hp, rfl⟩

/-- Reading does not depend on when a member is left out. -/
theorem ofOptional_cuttable {codec : Codec α} {R : α → List Char → Prop} (h : codec.Law R)
    (hcut : Json.Cuttable codec.read R) {key : String} {omitted : α → Bool} {get : ρ → α}
    {set : ρ → α → ρ} : (Member.ofOptional key codec omitted get set).Cuttable := by
  have hrequired : (Member.ofRequired key codec get set).Cuttable := ofRequired_cuttable h hcut
  exact hrequired

namespace RecordFormat.Fits

variable {format : RecordFormat ρ} {fields : List (Field ρ)}

/-! ## Objects -/

theorem cuttableMember (h : format.Fits fields) (hcut : ∀ m ∈ format.members, m.Cuttable) :
    CuttableMember format.readMember (FillsMember fields) := by
  intro state key literal c s hliteral
  simp only [readMember, member?]
  cases hfind : format.members.find? (·.key == key) with
  | none =>
    have hother := (find?_eq_none_iff h.fills).1 hfind
    refine (expectColon_cut c s).bind_whole ?_
    rintro e _ - hcolon rfl
    obtain ⟨b, hb, hp⟩ := expectColon_eq_ok_iff.1 hcolon
    refine (skipValue_cut e s).bind ?_ ?_
    · rintro d f - - (rfl | hend)
      · exact .ok (.inl rfl)
      · exact .ok (.inr hend)
    · -- the cut tears the value of a member that is ignored
      rintro d r - ⟨m, hm, htorn⟩ hr
      cases hr
      refine ⟨m, hm, [], key, literal, b, e.rest, m, [], hliteral, hb, ?_, by simp, htorn, ?_⟩
      · rw [hp.rest]
        simp
      · rintro t ⟨b', u, hb', hu, rfl⟩
        exact ⟨u, ⟨literal, hliteral, b, b', hb, hb', by simp⟩, .other hother hu⟩
  | some member =>
    obtain ⟨f, hf, hfills, rfl⟩ := exists_field h.fills hfind
    simp only
    split
    · exact .refused
    · next hnew =>
      refine (expectColon_cut c s).bind_whole ?_
      rintro e _ - hcolon rfl
      obtain ⟨b, hb, hp⟩ := expectColon_eq_ok_iff.1 hcolon
      refine (hcut member (List.mem_of_find?_eq_some hfind) state.1 e s).bind ?_ ?_
      · rintro ⟨r, d⟩ _ - - rfl
        exact .ok (.inl rfl)
      · rintro ⟨r, d⟩ x - ⟨m, hm, htorn⟩ hx
        cases hx
        refine ⟨m, hm, htorn.of_member hliteral hb hp fun t ht => ?_⟩
        obtain ⟨v, b', u, hb', hu, rfl, rfl⟩ := hfills.spells_iff.1 ht
        exact ⟨b', u, hb', .field hf (by simpa using hnew) hu, rfl⟩

/-- Members that fill a record, none of the required ones missing, make an object of it. -/
theorem recordObject_of_steps (h : format.Fits fields) {r : ρ} {keys : List String}
    {t : List Char} (ht : MembersText (FillsMember fields) true (format.blank, []) (r, keys) t)
    (hmissing : format.members.find? (fun m => m.required && !keys.contains m.key) = none) :
    RecordObject fields format.blank r ('\x7b' :: t) := by
  obtain ⟨ms, texts, hms, hitems, hsteps⟩ := ht
  obtain ⟨hfields, hvalues⟩ := given_of_steps h.independent hsteps
  refine ⟨ms, ⟨texts, hms, t, rfl, hitems⟩, fun f hf => ?_, hvalues⟩
  obtain ⟨hgiven, hkeys⟩ := hfields f hf
  refine Field.stated_iff.2 ⟨hgiven, fun hrequired => ?_⟩
  have hseen := (find?_missing_eq_none_iff _ h.fills).1 hmissing f hf hrequired
  simpa using hkeys.1 hseen

theorem readObject_cut (h : format.Fits fields) (hcut : ∀ m ∈ format.members, m.Cuttable)
    (c : Cursor) (s : List Char) : Cut (ExtendsAt s)
      (fun x => TornAt (fun t => RecordObject fields format.blank x.1 ('\x7b' :: t)) c s x.2)
      (format.readObject c) (format.readObject (c.extend s)) := by
  refine (readMembers_cut h.readsMember (h.cuttableMember hcut) s _ _ true (format.blank, [])
    c).bind ?_ ?_
  · rintro ⟨⟨r, keys⟩, d⟩ _ - - rfl
    simp only
    split
    · exact .refused
    · exact .ok rfl
  · rintro ⟨⟨r, keys⟩, d⟩ x - htorn hx
    simp only at hx
    split at hx
    · cases hx
    · next hmissing =>
      cases hx
      exact htorn.mono fun t ht => h.recordObject_of_steps ht hmissing

/-! ## Lists -/

/-- The texts of members in declared order that fill a record, up to the closing bracket. -/
def FilledText (fs : List (Field ρ)) (first : Bool) (r s : ρ) (t : List Char) : Prop :=
  ∃ ts, Filled fs r ts s ∧ Items ']' first ts t

/-- One more member before others. -/
theorem FilledText.cons {fs : List (Field ρ)} {f : Field ρ} {first : Bool} {r s : ρ} {v : f.Val}
    {lead b u rest : List Char} (hlead : Lead first lead) (hb : Blanks b) (hu : f.Text v u)
    (hrest : FilledText fs false (f.set r v) s rest) :
    FilledText (f :: fs) first r s (lead ++ ((b ++ u) ++ rest)) := by
  obtain ⟨ts, hfilled, hitems⟩ := hrest
  refine ⟨u :: ts, .cons hu hfilled, ?_⟩
  have h : Items ']' first (u :: ts) ((lead ++ b) ++ (u ++ rest)) :=
    .item (hlead.append hb) hitems
  simpa using h

theorem readPositional_cut {members : List (Member ρ)} {fs : List (Field ρ)}
    (hfills : List.Forall₂ (fun m f => m.Fills f format.blank) members fs)
    (hfirst : fs.Pairwise fun f g => f.required = false → g.required = false)
    (hcut : ∀ m ∈ members, m.Cuttable) (s : List Char) (index : Nat) (r : ρ) (c : Cursor) :
    Cut (ExtendsAt s) (fun x => TornAt (FilledText fs (index == 0) r x.1) c s x.2)
      (format.readPositional index r c members)
      (format.readPositional index r (c.extend s) members) := by
  induction hfills generalizing index r c with
  | nil =>
    rw [readPositional, readPositional]
    refine (closeList_cut c s).bind_whole ?_
    rintro d _ - - rfl
    exact .ok rfl
  | @cons m f members fs hm hms ih =>
    obtain ⟨-, hfirst⟩ := List.pairwise_cons.1 hfirst
    obtain ⟨hmcut, hcut⟩ := List.forall_mem_cons.1 hcut
    rw [readPositional, readPositional]
    refine (nextItem_cut c s (index == 0)).bind_whole ?_
    rintro ⟨more, e⟩ _ - hnext rfl
    cases more with
    | false =>
      simp only [Bool.false_eq_true, if_false]
      split
      · exact .refused
      · exact .ok rfl
    | true =>
      obtain ⟨⟨lead, hlead, hpe⟩, -⟩ := nextItem_true_iff.1 hnext
      simp only [if_true]
      refine (hmcut r e s).bind ?_ ?_
      · rintro ⟨r', g⟩ _ - hread rfl
        obtain ⟨v, b, u, hb, hu, hpg, rfl⟩ := (hm.reads _ _ _ _).1 hread
        refine (ih hfirst hcut (index + 1) (f.set r v) g).mono (fun _ _ _ h => h) ?_
        -- the cut tears a later member
        rintro ⟨r'', d⟩ - htorn
        refine htorn.after (hpe.trans hpg) fun t ht => ?_
        have := FilledText.cons hlead hb hu ht
        simpa using this
      · -- the cut tears this member
        rintro ⟨r', g⟩ ⟨r'', d⟩ - htorn hread
        obtain ⟨ts, rest, hfilled, hitems, hpr⟩ := readPositional_sound hms hfirst hread
        refine htorn.within hpe hpr fun t ht => ?_
        obtain ⟨v, b, u, hb, hu, rfl, rfl⟩ := hm.spells_iff.1 ht
        exact .cons hlead hb hu ⟨ts, hfilled, hitems⟩

/-! ## Either notation -/

theorem cuttable (h : format.Fits fields) (hcut : ∀ m ∈ format.members, m.Cuttable) :
    Json.Cuttable format.codec.read (RecordText fields format.blank) where
  nothing := by
    intro c hr
    simp only [codec, read, hr]
    exact refuseValue_short hr
  cut := by
    intro c s
    rcases c.skipBlank_extend s with hr | ⟨x, r, hr, hskip, hadv⟩
    · simp only [codec, read, hr]
      exact .short (refuseValue_short hr)
    simp only [codec, read, hskip, hr, Cursor.rest_extend, List.cons_append]
    by_cases hlist : x = '['
    · subst hlist
      simp only [hadv]
      refine (readPositional_cut h.fills h.requiredFirst hcut s 0 format.blank _).mono
        (fun _ _ _ h => h) ?_
      rintro ⟨r, d⟩ - htorn
      refine htorn.of_opened hr ?_
      rintro t ⟨ts, hfilled, hitems⟩
      exact .inr ⟨ts, ⟨t, rfl, hitems⟩, (filled_iff_listed h.independent).1 hfilled⟩
    by_cases hobject : x = '\x7b'
    · subst hobject
      simp only [hadv]
      refine (h.readObject_cut hcut _ s).mono (fun _ _ _ h => h) ?_
      rintro ⟨r, d⟩ - htorn
      exact htorn.of_opened hr fun t ht => .inl ht
    · simp only [hlist, hobject, List.cons.injEq, false_and, imp_self, implies_true]
      exact .of_refuseValue

end RecordFormat.Fits

end Json
end GrammarModule
