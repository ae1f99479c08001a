import GrammarModule.Proofs.Catalogue.Rendering
import GrammarModule.Proofs.Json.Truncated.Record

/-!
# GrammarModule.Proofs.Catalogue.Truncated

Metadata that is cut anywhere. As far as the closing bracket of the list is there, nothing is lost;
without it the text is refused, never read as something smaller. The refusal says that the text is
cut short, unless the cut tears a number in the value of a member that is ignored
(`truncated_never_loads`).
-/

namespace GrammarModule

open Json

/-! ## The readers of each record -/

theorem KindRef.cuttable : Cuttable KindRef.format.codec.read KindRef.Text := by
  refine format_fits.cuttable ?_
  simp only [format, List.forall_mem_cons]
  exact ⟨ofRequired_cuttable text_law cuttable_text, ofRequired_cuttable flag_law cuttable_flag,
    by simp⟩

theorem cuttable_kindRefs :
    Cuttable (Codec.list KindRef.format.codec).read (ListText KindRef.Text) :=
  cuttable_list KindRef.law.reads KindRef.cuttable

theorem ChildRule.cuttable : Cuttable ChildRule.format.codec.read ChildRule.Text := by
  refine format_fits.cuttable ?_
  simp only [format, List.forall_mem_cons]
  exact ⟨ofRequired_cuttable flag_law cuttable_flag, ofRequired_cuttable flag_law cuttable_flag,
    ofRequired_cuttable (list_law KindRef.law) cuttable_kindRefs, by simp⟩

theorem KindEntry.cuttable : Cuttable KindEntry.format.codec.read KindEntry.Text := by
  have hfields := table_law ChildRule.law
  have hchildren := optional_law ChildRule.law fun _ _ h => RecordText.not_null h
  have hsubtypes := optional_law (list_law KindRef.law) fun _ _ h => ListText.not_null h
  refine format_fits.cuttable ?_
  simp only [format, List.forall_mem_cons]
  exact ⟨ofRequired_cuttable text_law cuttable_text, ofRequired_cuttable flag_law cuttable_flag,
    ofOptional_cuttable hfields (cuttable_table ChildRule.law.reads ChildRule.cuttable),
    ofOptional_cuttable hchildren (cuttable_optional ChildRule.cuttable),
    ofOptional_cuttable hsubtypes (cuttable_optional cuttable_kindRefs), by simp⟩

/-! ## Whole catalogues -/

/-- A list of items ends with its closing character. -/
theorem Json.Items.exists_close {close : Char} {first : Bool} {texts : List (List Char)}
    {t : List Char} (h : Items close first texts t) : ∃ r, t = r ++ [close] := by
  induction h with
  | close hb => exact ⟨_, rfl⟩
  | @item _ s u _ _ _ _ ih =>
    obtain ⟨r, rfl⟩ := ih
    exact ⟨s ++ (u ++ r), by simp⟩

namespace Catalogue

/-- The reader of catalogues is the one of their entries. -/
theorem read_cut (c : Cursor) (s : List Char) : Cut (ExtendsAt s)
    (fun r => TornAt (Spaced (ListText KindEntry.Text r.1.entries)) c s r.2) (codec.read c)
    (codec.read (c.extend s)) := by
  refine ((cuttable_list KindEntry.law.reads KindEntry.cuttable).cut c s).bind ?_ ?_
  · rintro ⟨entries, d⟩ _ - - rfl
    exact .ok rfl
  · rintro ⟨entries, d⟩ r - htorn hr
    cases hr
    exact htorn

theorem parse_eq_malformed {source : String} {e : Json.Error}
    (h : codec.read (.ofText source) = .error e) :
    parse source = .error (.malformedMetadata e) := by
  simp only [parse, Codec.parse, h]
  rfl

section

variable {source : String} {c : Catalogue} {before list after cut rest : List Char}
  (hbefore : Blanks before) (hlist : ListText KindEntry.Text c.entries list)
  (hsource : source.toList = before ++ (list ++ after))
  (hcut : source.toList = cut ++ rest)
include hbefore hlist hsource hcut

/-- With the whole list before the cut nothing but blanks is lost. -/
theorem parse_of_list_before_cut (hafter : Blanks after) (h : before ++ list <+: cut) :
    parse (String.ofList cut) = .ok c := by
  obtain ⟨blanks, hblanks⟩ := h
  have hkept : after = blanks ++ rest := by
    rw [hsource, ← hblanks] at hcut
    simpa using hcut
  refine parse_eq_ok_iff.2 ⟨before, list, blanks, hbefore, hlist, ?_, ?_⟩
  · intro x hx
    exact hafter x (hkept ▸ List.mem_append_left rest hx)
  · rw [String.toList_ofList, ← hblanks, List.append_assoc]

/-- Without the whole list before the cut the text is refused. -/
theorem parse_of_cut_list (hafter : Blanks after) (h : ¬before ++ list <+: cut) :
    ∃ e, parse (String.ofList cut) = .error (.malformedMetadata e) ∧
      (e.cause.category = .cutShort ∨
        TornIgnored (fun t => parse (String.ofList t) = .ok c) cut rest) := by
  -- the reader of the whole text stops after the list
  have hp : (Cursor.ofText source).Past (before ++ list)
      ⟨Position.start.afterText (before ++ list), after⟩ :=
    ⟨by rw [Cursor.ofText, hsource, List.append_assoc], rfl⟩
  have hread := (law.reads c _ _).2 ⟨before, list, hbefore, hlist, hp⟩
  have hextend : Cursor.ofText source = (Cursor.ofText (String.ofList cut)).extend rest := by
    rw [Cursor.ofText, Cursor.ofText, Cursor.extend, hcut, String.toList_ofList]
  rw [hextend] at hread
  rcases read_cut _ rest _ hread with ⟨⟨c', d⟩, -, hsame⟩ | ⟨e, he, htorn⟩
  · -- nothing was looked at beyond the cut, so the list stands before it
    refine absurd ⟨d.rest, ?_⟩ h
    have hd : after = d.rest ++ rest := congrArg (fun r => r.2.rest) hsame
    rw [hsource, hd] at hcut
    simpa [← List.append_assoc] using hcut
  · refine ⟨e, parse_eq_malformed he, htorn.imp_right ?_⟩
    rintro ⟨m, hm, htorn⟩
    have hwithin : TornIgnored (fun t => parse (String.ofList t) = .ok c) ([] ++ cut)
        (m ++ after) := by
      rw [Cursor.ofText, String.toList_ofList] at htorn
      refine htorn.within ?_
      rintro t ⟨b, u, hb, hu, rfl⟩
      exact parse_eq_ok_iff.2 ⟨b, u, after, hb, hu, hafter, by simp⟩
    rwa [List.nil_append, ← show rest = m ++ after from hm] at hwithin

end

/-- A text is read as far as the closing bracket of its list, and no part of it without the bracket
is read: it is refused as cut short, or the cut tears a number in the value of a member that is
ignored, so that any other value of that member would leave the catalogue the same. -/
theorem truncated_never_loads {source : String} {c : Catalogue} (h : parse source = .ok c) :
    ∃ before list after, Blanks before ∧ Blanks after ∧
      ListText KindEntry.Text c.entries ('[' :: (list ++ [']'])) ∧
      source.toList = before ++ ('[' :: (list ++ [']']) ++ after) ∧
      ∀ cut rest, source.toList = cut ++ rest →
        ((∃ d, parse (String.ofList cut) = .ok d) ↔ before ++ '[' :: (list ++ [']']) <+: cut) ∧
        (before ++ '[' :: (list ++ [']']) <+: cut → parse (String.ofList cut) = .ok c) ∧
        (¬before ++ '[' :: (list ++ [']']) <+: cut →
          ∃ e, parse (String.ofList cut) = .error (.malformedMetadata e) ∧
            (e.cause.category = .cutShort ∨
              TornIgnored (fun t => parse (String.ofList t) = .ok c) cut rest)) := by
  obtain ⟨before, _, after, hbefore, hlist, hafter, hsource⟩ := parse_eq_ok_iff.1 h
  have hitems := hlist
  obtain ⟨texts, -, _, rfl, hitems⟩ := hitems
  obtain ⟨list, rfl⟩ := hitems.exists_close
  refine ⟨before, list, after, hbefore, hafter, hlist, hsource, fun cut rest hcut => ?_⟩
  have hkept := parse_of_list_before_cut hbefore hlist hsource hcut hafter
  have hrefused := parse_of_cut_list hbefore hlist hsource hcut hafter
  refine ⟨⟨?_, fun hbracket => ⟨c, hkept hbracket⟩⟩, hkept, hrefused⟩
  rintro ⟨d, hd⟩
  by_contra hbracket
  obtain ⟨e, he, -⟩ := hrefused hbracket
  rw [hd] at he
  cases he

/-- A cut after the minus sign of a number that nobody asks for. -/
theorem truncated_never_loads_minus_sign :
    let cut := "[\x7b\"type\":\"a\",\"named\":true,\"x\":-"
    let rest := "5\x7d]"
    let c : Catalogue := ⟨[⟨"a", true, ∅, none, none⟩]⟩
    parse (cut ++ rest) = .ok c ∧
      ∃ e, parse cut = .error (.malformedMetadata e) ∧
        (e.cause.category = .cutShort ∨
          TornIgnored (fun t => parse (String.ofList t) = .ok c) cut.toList rest.toList) := by
  intro cut rest c
  have hparse : parse (cut ++ rest) = .ok c := by decide +kernel
  obtain ⟨before, list, after, -, -, -, -, hcuts⟩ := truncated_never_loads hparse
  have hbracket : ¬before ++ '[' :: (list ++ [']']) <+: cut.toList := by
    intro h
    have hmem : ']' ∈ cut.toList := h.subset (by simp)
    exact absurd hmem (by decide)
  have hrefused := (hcuts cut.toList rest.toList String.toList_append).2.2 hbracket
  rw [String.ofList_toList] at hrefused
  exact ⟨hparse, hrefused⟩

/-- A minus sign alone is no number, and is refused as such. -/
example : parse "[\x7b\"type\":\"a\",\"named\":true,\"x\":-" =
    .error (.malformedMetadata ⟨.invalidNumber, ⟨1, 31⟩⟩) := by decide +kernel

end Catalogue

end GrammarModule
