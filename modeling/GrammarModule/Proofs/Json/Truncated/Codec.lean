import GrammarModule.Proofs.Json.Law
import GrammarModule.Proofs.Json.Truncated.Skip

/-!
# GrammarModule.Proofs.Json.Truncated.Codec

Typed values up to a cut. `Cuttable read R` says that up to a cut a reader of `R` does what it does
on the whole text, or refuses the text, as cut short unless the cut tears a number in the value of
a member that is ignored (`TornIgnored`). Readers of lists, tables and optional values are cuttable
when those of their parts are: what stands around a part is filled up by the run on the whole text.
-/

namespace GrammarModule
namespace Json

variable {α σ : Type}

/-! ## Ignored members -/

/-- The cut between `q` and `s` tears a number, which belongs to the value of a member, and the
text is one of `P` whatever value that member has. -/
def TornIgnored (P : List Char → Prop) (q s : List Char) : Prop :=
  ∃ before key literal b inside torn after, TextLiteral key literal ∧ Blanks b ∧
    q = before ++ (literal ++ (b ++ ':' :: inside)) ∧ s = torn ++ after ∧
    TornNumber (Spaced IsValue) inside torn ∧
    ∀ t, Spaced IsValue t → P (before ++ (literal ++ (b ++ ':' :: (t ++ after))))

/-- A text in the midst of another one. -/
theorem TornIgnored.within {P Q : List Char → Prop} {q s x y : List Char} (h : TornIgnored P q s)
    (hxy : ∀ t, P t → Q (x ++ (t ++ y))) : TornIgnored Q (x ++ q) (s ++ y) := by
  obtain ⟨before, key, literal, b, inside, torn, after, hkey, hb, rfl, rfl, htorn, hfree⟩ := h
  refine ⟨x ++ before, key, literal, b, inside, torn, after ++ y, hkey, hb, by simp, by simp,
    htorn, fun t ht => ?_⟩
  simpa using hxy _ (hfree t ht)

/-- In what a run on the whole text goes past up to `d` the cut tears a number of an ignored
member. -/
def TornAt (P : List Char → Prop) (c : Cursor) (s : List Char) (d : Cursor) : Prop :=
  ∃ m, s = m ++ d.rest ∧ TornIgnored P c.rest m

theorem TornAt.within {P Q : List Char → Prop} {c e d f : Cursor} {s x y : List Char}
    (h : TornAt P e s d) (hx : c.Past x e) (hy : d.Past y f)
    (hxy : ∀ t, P t → Q (x ++ (t ++ y))) : TornAt Q c s f := by
  obtain ⟨m, hm, htorn⟩ := h
  refine ⟨m ++ y, by rw [hm, hy.rest, List.append_assoc], ?_⟩
  rw [hx.rest]
  exact htorn.within hxy

/-- With nothing more after it. -/
theorem TornAt.after {P Q : List Char → Prop} {c e d : Cursor} {s x : List Char}
    (h : TornAt P e s d) (hx : c.Past x e) (hxy : ∀ t, P t → Q (x ++ t)) : TornAt Q c s d :=
  h.within hx (.refl d) fun t ht => by simpa using hxy t ht

theorem TornAt.mono {P Q : List Char → Prop} {c d : Cursor} {s : List Char} (h : TornAt P c s d)
    (hPQ : ∀ t, P t → Q t) : TornAt Q c s d :=
  h.after (.refl c) hPQ

/-- After the first character of a value and blanks before it. -/
theorem TornAt.of_opened {P R : List Char → Prop} {c d : Cursor} {s r : List Char} {x : Char}
    (h : TornAt P c.skipBlank.advance s d) (hr : c.skipBlank.rest = x :: r)
    (hPR : ∀ t, P t → R (x :: t)) : TornAt (Spaced R) c s d := by
  obtain ⟨b, hb, hp⟩ := c.exists_past_skipBlank
  refine h.after (hp.trans (Cursor.past_advance hr)) fun t ht => ?_
  exact ⟨b, x :: t, hb, hPR t ht, by simp⟩

/-! ## Values without parts -/

/-- How a reader of the texts of `R` behaves up to a cut. -/
structure Cuttable (read : Cursor → Except Error (α × Cursor)) (R : α → List Char → Prop) :
    Prop where
  cut : ∀ c s, Cut (ExtendsAt s) (fun r => TornAt (Spaced (R r.1)) c s r.2) (read c)
    (read (c.extend s))
  nothing : ∀ c, c.skipBlank.rest = [] → CutShort (read c)

theorem refuseValue_short {expected : Expected} {c : Cursor} (h : c.rest = []) :
    CutShort (refuseValue expected c : Except Error α) := by
  simp only [refuseValue, h]
  exact cutShort_failNext rfl

theorem Cut.of_refuseValue {Same : α × Cursor → α × Cursor → Prop} {Torn : α × Cursor → Prop}
    {run : Except Error (α × Cursor)} {expected : Expected} {c : Cursor} :
    Cut Same Torn run (refuseValue expected c) :=
  fun _ hr => absurd hr refuseValue_ne_ok

theorem Cut.of_whole {β : Type} {Same : β → β → Prop} {Torn : β → Prop} {run whole : Except Error β}
    (h : Cut Same Whole run whole) : Cut Same Torn run whole :=
  h.mono (fun _ _ _ h => h) fun _ _ h => h.elim

theorem cuttable_flag : Cuttable readFlag FlagText where
  nothing := by
    intro c hr
    simp only [readFlag, hr]
    exact refuseValue_short hr
  cut := by
    intro c s
    rcases c.skipBlank_extend s with hr | ⟨x, r, hr, hskip, hadv⟩
    · simp only [readFlag, hr]
      exact .short (refuseValue_short hr)
    have hword : ∀ (v : Bool) (w : List Char), Cut (ExtendsAt s)
        (fun r => TornAt (Spaced (FlagText r.1)) c s r.2)
        (do .ok (v, ← expectWord c.skipBlank.advance w))
        (do .ok (v, ← expectWord (c.skipBlank.advance.extend s) w)) := by
      intro v w
      refine (expectWord_cut _ s w).bind_whole ?_
      rintro d _ - - rfl
      exact .ok rfl
    simp only [readFlag, hskip, hr, Cursor.rest_extend, List.cons_append]
    by_cases ht : x = 't'
    · subst ht
      simp only [hadv]
      exact hword true _
    by_cases hf : x = 'f'
    · subst hf
      simp only [hadv]
      exact hword false _
    · simp only [ht, hf, List.cons.injEq, false_and, imp_self, implies_true]
      exact .of_refuseValue

theorem cuttable_text : Cuttable readString TextLiteral where
  nothing := by
    intro c hr
    simp only [readString, hr]
    exact refuseValue_short hr
  cut := by
    intro c s
    rcases c.skipBlank_extend s with hr | ⟨x, r, hr, hskip, hadv⟩
    · simp only [readString, hr]
      exact .short (refuseValue_short hr)
    simp only [readString, hskip, hr, Cursor.rest_extend, List.cons_append]
    by_cases hquote : x = '"'
    · subst hquote
      simp only [hadv]
      exact (readText_cut _ s).of_whole
    · simp only [hquote, List.cons.injEq, false_and, imp_self, implies_true]
      exact .of_refuseValue

/-! ## Lists -/

/-- The items of a list up to its closing bracket. -/
def ItemsText (R : α → List Char → Prop) (first : Bool) (values : List α) (t : List Char) : Prop :=
  ∃ texts, List.Forall₂ R values texts ∧ Items ']' first texts t

/-- One more item before others. -/
theorem ItemsText.cons {R : α → List Char → Prop} {first : Bool} {v : α} {vs : List α}
    {lead t r : List Char} (hlead : Lead first lead) (ht : Spaced (R v) t)
    (hr : ItemsText R false vs r) : ItemsText R first (v :: vs) (lead ++ (t ++ r)) := by
  obtain ⟨b, u, hb, hu, rfl⟩ := ht
  obtain ⟨texts, hvs, hitems⟩ := hr
  refine ⟨u :: texts, .cons hu hvs, ?_⟩
  have h : Items ']' first (u :: texts) ((lead ++ b) ++ (u ++ r)) :=
    .item (hlead.append hb) hitems
  simpa using h

theorem readItems_cut {item : Cursor → Except Error (α × Cursor)} {R : α → List Char → Prop}
    (hread : Reads item R) (hcut : Cuttable item R) (s bound bound' : List Char) (first : Bool)
    (c : Cursor) : Cut (ExtendsAt s) (fun r => TornAt (ItemsText R first r.1) c s r.2)
      (readItems item bound' first c) (readItems item bound first (c.extend s)) := by
  induction bound generalizing bound' first c with
  | nil => exact .refused
  | cons x bound ih =>
    cases bound' with
    | nil => exact .short (cutShort_failNext rfl)
    | cons y bound' =>
      rw [readItems, readItems]
      refine (nextItem_cut c s first).bind_whole ?_
      rintro ⟨more, e⟩ _ - hnext rfl
      cases more with
      | false => exact .ok rfl
      | true =>
        obtain ⟨⟨lead, hlead, hpe⟩, -⟩ := nextItem_true_iff.1 hnext
        simp only [if_true]
        refine (hcut.cut e s).bind ?_ ?_
        · rintro ⟨v, f⟩ _ - hv rfl
          obtain ⟨b, u, hb, hu, hpf⟩ := (hread v e f).1 hv
          refine (ih bound' false f).bind ?_ ?_
          · rintro a _ - - rfl
            exact .ok rfl
          · -- the cut tears a later item
            rintro ⟨vs, g⟩ _ - htorn hr
            cases hr
            refine htorn.after (hpe.trans hpf) fun t ht => ?_
            have := ItemsText.cons hlead ⟨b, u, hb, hu, rfl⟩ ht
            simpa using this
        · -- the cut tears this item
          rintro ⟨v, g⟩ r - htorn hr
          obtain ⟨⟨vs, h⟩, hvs, hr⟩ := bind_eq_ok_iff.1 hr
          cases hr
          obtain ⟨texts, rest, htexts, hrest, hpr⟩ := readItems_sound hread hvs
          exact htorn.within hpe hpr fun t ht => .cons hlead ht ⟨texts, htexts, hrest⟩

theorem cuttable_list {item : Cursor → Except Error (α × Cursor)} {R : α → List Char → Prop}
    (hread : Reads item R) (hcut : Cuttable item R) : Cuttable (readList item) (ListText R) where
  nothing := by
    intro c hr
    simp only [readList, hr]
    exact refuseValue_short hr
  cut := by
    intro c s
    rcases c.skipBlank_extend s with hr | ⟨x, r, hr, hskip, hadv⟩
    · simp only [readList, hr]
      exact .short (refuseValue_short hr)
    simp only [readList, hskip, hr, Cursor.rest_extend, List.cons_append]
    by_cases hopen : x = '['
    · subst hopen
      simp only [hadv]
      refine (readItems_cut hread hcut s _ _ true _).mono (fun _ _ _ h => h) ?_
      rintro ⟨values, d⟩ - htorn
      refine htorn.of_opened hr ?_
      rintro t ⟨texts, htexts, ht⟩
      exact ⟨texts, htexts, t, rfl, ht⟩
    · simp only [hopen, List.cons.injEq, false_and, imp_self, implies_true]
      exact .of_refuseValue

/-! ## Objects -/

/-- A member under a key whose value takes one state to another. -/
def StepText (Step : σ → String × List Char → σ → Prop) (state : σ) (key : String) (state' : σ)
    (t : List Char) : Prop :=
  ∃ u, MemberText (key, u) t ∧ Step state (key, u) state'

/-- In the value of a member, after its key and the colon. -/
theorem TornIgnored.of_member {P : List Char → Prop} {Step : σ → String × List Char → σ → Prop}
    {state state' : σ} {key : String} {literal b m : List Char} {c e : Cursor}
    (h : TornIgnored P e.rest m) (hliteral : TextLiteral key literal) (hb : Blanks b)
    (hp : c.Past (b ++ [':']) e)
    (hP : ∀ t, P t → Spaced (fun u => Step state (key, u) state') t) :
    TornIgnored (StepText Step state key state') (literal ++ c.rest) m := by
  have hwithin : TornIgnored (StepText Step state key state')
      ((literal ++ (b ++ [':'])) ++ e.rest) (m ++ []) := by
    refine h.within fun t ht => ?_
    obtain ⟨b', u, hb', hu, rfl⟩ := hP t ht
    exact ⟨u, ⟨literal, hliteral, b, b', hb, hb', by simp⟩, hu⟩
  rw [List.append_nil] at hwithin
  rw [hp.rest, ← List.append_assoc]
  exact hwithin

/-- How a reader of members behaves up to a cut, after any literal for the key. A member may end
with the text up to the cut; the object around it does not. -/
def CuttableMember (member : σ → String → Cursor → Except Error (σ × Cursor))
    (Step : σ → String × List Char → σ → Prop) : Prop :=
  ∀ state key literal c s, TextLiteral key literal →
    Cut (fun a b => ExtendsAt s a b ∨ a.2.rest = [])
      (fun r => ∃ m, s = m ++ r.2.rest ∧
        TornIgnored (StepText Step state key r.1) (literal ++ c.rest) m)
      (member state key c) (member state key (c.extend s))

/-- The members of an object up to its closing brace. -/
def MembersText (Step : σ → String × List Char → σ → Prop) (first : Bool) (state state' : σ)
    (t : List Char) : Prop :=
  ∃ ms texts, List.Forall₂ MemberText ms texts ∧ Items '\x7d' first texts t ∧
    Steps Step state ms state'

/-- One more member before others. -/
theorem MembersText.cons {Step : σ → String × List Char → σ → Prop} {first : Bool}
    {state state' state'' : σ} {key : String} {lead t r : List Char} (hlead : Lead first lead)
    (ht : StepText Step state key state' t) (hr : MembersText Step false state' state'' r) :
    MembersText Step first state state'' (lead ++ (t ++ r)) := by
  obtain ⟨u, hu, hstep⟩ := ht
  obtain ⟨ms, texts, hms, hitems, hsteps⟩ := hr
  exact ⟨(key, u) :: ms, t :: texts, .cons hu hms, .item hlead hitems, .cons hstep hsteps⟩

theorem readMembers_at_end {member : σ → String → Cursor → Except Error (σ × Cursor)}
    {bound : List Char} {first : Bool} {state : σ} {c : Cursor} (hc : c.rest = []) :
    CutShort (readMembers member bound first state c) := by
  cases bound with
  | nil => exact cutShort_failNext rfl
  | cons x bound =>
    have hr : c.skipBlank.rest = [] := by simp [Cursor.rest_skipBlank, hc]
    refine ⟨⟨.endInObject, c.skipBlank.nextPosition⟩, ?_, rfl⟩
    simp only [readMembers, nextKey, hr]
    rfl

theorem readMembers_cut {member : σ → String → Cursor → Except Error (σ × Cursor)}
    {Step : σ → String × List Char → σ → Prop} (hread : ReadsMember member Step)
    (hcut : CuttableMember member Step) (s bound bound' : List Char) (first : Bool) (state : σ)
    (c : Cursor) : Cut (ExtendsAt s) (fun r => TornAt (MembersText Step first state r.1) c s r.2)
      (readMembers member bound' first state c)
      (readMembers member bound first state (c.extend s)) := by
  induction bound generalizing bound' first state c with
  | nil => exact .refused
  | cons x bound ih =>
    cases bound' with
    | nil => exact .short (cutShort_failNext rfl)
    | cons y bound' =>
      rw [readMembers, readMembers]
      refine (nextKey_cut c s first).bind_whole ?_
      rintro ⟨key?, e⟩ _ - hnext rfl
      cases key? with
      | none => exact .ok rfl
      | some key =>
        obtain ⟨lead, literal, hlead, hliteral, hpe⟩ := nextKey_some_iff.1 hnext
        refine (hcut state key literal e s hliteral).bind ?_ ?_
        · rintro ⟨state', f⟩ b - hmember hsame
          rcases hsame with hsame | hend
          · cases hsame
            obtain ⟨b, b', u, hb, hb', hpf, hstep⟩ := hread.sound hmember
            refine (ih bound' false state' f).mono (fun _ _ _ h => h) ?_
            -- the cut tears a later member
            rintro ⟨state'', g⟩ - htorn
            refine htorn.after (hpe.trans hpf) fun t ht => ?_
            have := MembersText.cons hlead ⟨u, ⟨literal, hliteral, b, b', hb, hb', rfl⟩, hstep⟩ ht
            simpa using this
          · exact .short (readMembers_at_end hend)
        · -- the cut tears this member
          rintro ⟨state', g⟩ ⟨state'', h⟩ - ⟨m, hm, htorn⟩ hr
          obtain ⟨ms, texts, rest, hms, hitems, hpr, hsteps⟩ := readMembers_sound hread hr
          refine ⟨m ++ rest, by rw [hm, hpr.rest, List.append_assoc], ?_⟩
          rw [hpe.rest, List.append_assoc]
          exact htorn.within fun t ht => .cons hlead ht ⟨ms, texts, hms, hitems, hsteps⟩

/-! ## Tables and optional values -/

theorem cuttableMember_table {item : Cursor → Except Error (α × Cursor)}
    {R : α → List Char → Prop} (hcut : Cuttable item R) :
    CuttableMember (fun (table : Table α) key c => do
      let (value, c) ← item (← expectColon c)
      .ok (table.insert key value, c)) (StoresEntry R) := by
  intro table key literal c s hliteral
  refine (expectColon_cut c s).bind_whole ?_
  rintro e _ - hcolon rfl
  obtain ⟨b, hb, hp⟩ := expectColon_eq_ok_iff.1 hcolon
  refine (hcut.cut e s).bind ?_ ?_
  · rintro ⟨v, f⟩ _ - - rfl
    exact .ok (.inl rfl)
  · rintro ⟨v, f⟩ r - ⟨m, hm, htorn⟩ hr
    cases hr
    refine ⟨m, hm, htorn.of_member hliteral hb hp ?_⟩
    rintro t ⟨b', u, hb', hu, rfl⟩
    exact ⟨b', u, hb', ⟨v, hu, rfl⟩, rfl⟩

/-- An object that fills the empty table. -/
theorem tableText_of_steps {R : α → List Char → Prop} {table : Table α} {t : List Char}
    (h : MembersText (StoresEntry R) true ∅ table t) : TableText R table ('\x7b' :: t) := by
  obtain ⟨ms, texts, hms, ht, hsteps⟩ := h
  obtain ⟨values, hvalues, rfl⟩ := steps_storesEntry_iff.1 hsteps
  refine ⟨ms, values, ⟨texts, hms, t, rfl, ht⟩, hvalues, fun key => ?_⟩
  rw [Table.get?_foldl_insert, Table.get?_empty, Option.or_none]

theorem cuttable_table {item : Cursor → Except Error (α × Cursor)} {R : α → List Char → Prop}
    (hread : Reads item R) (hcut : Cuttable item R) : Cuttable (readTable item) (TableText R) where
  nothing := by
    intro c hr
    simp only [readTable, hr]
    exact refuseValue_short hr
  cut := by
    intro c s
    rcases c.skipBlank_extend s with hr | ⟨x, r, hr, hskip, hadv⟩
    · simp only [readTable, hr]
      exact .short (refuseValue_short hr)
    simp only [readTable, hskip, hr, Cursor.rest_extend, List.cons_append]
    by_cases hopen : x = '\x7b'
    · subst hopen
      simp only [hadv]
      refine (readMembers_cut (readsMember_table hread) (cuttableMember_table hcut) s _ _ true ∅
        _).mono (fun _ _ _ h => h) ?_
      rintro ⟨table, d⟩ - htorn
      exact htorn.of_opened hr fun t ht => tableText_of_steps ht
    · simp only [hopen, List.cons.injEq, false_and, imp_self, implies_true]
      exact .of_refuseValue

theorem readOptional_short {item : Cursor → Except Error (α × Cursor)}
    {R : α → List Char → Prop} (hcut : Cuttable item R) {c : Cursor} (hr : c.skipBlank.rest = []) :
    CutShort (readOptional item c) := by
  have hblank : c.skipBlank.skipBlank.rest = [] := by
    rw [Cursor.rest_skipBlank, hr]
    rfl
  obtain ⟨e, he, hcause⟩ := hcut.nothing c.skipBlank hblank
  refine ⟨e, ?_, hcause⟩
  simp only [readOptional, hr, he]
  rfl

theorem cuttable_optional {item : Cursor → Except Error (α × Cursor)} {R : α → List Char → Prop}
    (hcut : Cuttable item R) : Cuttable (readOptional item) (OptionalText R) where
  nothing c hr := readOptional_short hcut hr
  cut := by
    intro c s
    rcases c.skipBlank_extend s with hr | ⟨x, r, hr, hskip, hadv⟩
    · exact .short (readOptional_short hcut hr)
    obtain ⟨b, hb, hp⟩ := c.exists_past_skipBlank
    simp only [readOptional, hskip, hr, Cursor.rest_extend, List.cons_append]
    by_cases hnull : x = 'n'
    · subst hnull
      simp only [hadv]
      refine (expectWord_cut _ s _).bind_whole ?_
      rintro d _ - - rfl
      exact .ok rfl
    · simp only [hnull, List.cons.injEq, false_and, imp_self, implies_true]
      refine (hcut.cut c.skipBlank s).bind ?_ ?_
      · rintro ⟨v, d⟩ _ - - rfl
        exact .ok rfl
      · rintro ⟨v, d⟩ r - htorn hr
        cases hr
        refine htorn.after hp ?_
        rintro t ⟨b', u, hb', hu, rfl⟩
        exact ⟨b ++ b', u, hb.append hb', .value hu, by simp⟩

end Json
end GrammarModule
