import GrammarModule.Proofs.Command.Front

/-!
# GrammarModule.Proofs.Command.Revalue

Command lines that differ in the value of one option only. Nothing that is read after the option
looks at its value, so the rest is read alike (`readArguments_commutes`, `commutes_revalue`), and
what stands before the option is read before it (`exists_before_option`).
-/

namespace GrammarModule
namespace Command

open Json (bind_eq_ok_iff)

variable {grammar : Grammar} {found : Arguments} {name : OptionName}
  {value : List UInt8} {P : Arguments → Prop} {change : Arguments → Arguments}

/-- A change of what has been read so far, which adding does not notice while `P` holds. -/
structure Arguments.Commutes (grammar : Grammar) (P : Arguments → Prop)
    (change : Arguments → Arguments) : Prop extends Kept grammar P where
  change_addOption {found : Arguments} (name : OptionName) (value : List UInt8) : P found →
    (change found).addOption grammar name value = (found.addOption grammar name value).map change
  change_addOperand {found : Arguments} (operand : List UInt8) : P found →
    (change found).addOperand grammar operand = (found.addOperand grammar operand).map change

theorem map_bind_eq {ε α α' β β' : Type} {x : Except ε α} {f : α → α'} {g : β → β'}
    {next : α → Except ε β} {next' : α' → Except ε β'}
    (h : ∀ a, x = .ok a → next' (f a) = (next a).map g) :
    x.map f >>= next' = (x >>= next).map g := by
  cases x with
  | error e => rfl
  | ok a => exact h a rfl

/-- The reading after the change gives what the other one gives, changed. -/
structure Changed {β : Type} (P : Arguments → Prop) (change : Arguments → Arguments)
    (plain after : Except Stop (Arguments × β)) : Prop where
  map : after = plain.map (Prod.map change id)
  kept : ∀ r, plain = .ok r → P r.1

theorem Arguments.Commutes.relates (h : Commutes grammar P change) :
    Relates grammar P (fun found found' => P found ∧ found' = change found)
      (fun _ => Changed P change) where
  toKept := h.toKept
  ok b := by
    rintro ⟨hP, rfl⟩
    refine ⟨rfl, ?_⟩
    rintro r ⟨⟩
    exact hP
  error stop := ⟨rfl, by rintro r ⟨⟩⟩
  bindOption {found found'} _ next other v hchange hnext hkept := by
    obtain ⟨hP, rfl⟩ := hchange
    refine ⟨?_, fun r hr => ?_⟩
    · rw [h.change_addOption other v hP]
      exact map_bind_eq fun g hadd => (hnext g _ ⟨h.addOption hP hadd, rfl⟩).map
    · obtain ⟨g, hadd, hr⟩ := bind_eq_ok_iff.1 hr
      exact hkept g r (h.addOption hP hadd) hr
  bindOperand {found found'} _ next operand hchange hnext := by
    obtain ⟨hP, rfl⟩ := hchange
    refine ⟨?_, fun r hr => ?_⟩
    · rw [h.change_addOperand operand hP]
      exact map_bind_eq fun g hadd => (hnext g _ ⟨h.addOperand hP hadd, rfl⟩).map
    · obtain ⟨g, hadd, hr⟩ := bind_eq_ok_iff.1 hr
      exact (hnext g _ ⟨h.addOperand hP hadd, rfl⟩).kept r hr
  bind {_ _ x x' next} hx hnext hkept := by
    refine ⟨?_, fun r hr => ?_⟩
    · rw [hx.map]
      exact map_bind_eq fun a ha => (hnext a.1 _ a.2 ⟨hx.kept a ha, rfl⟩).map
    · obtain ⟨a, ha, hr⟩ := bind_eq_ok_iff.1 hr
      exact hkept a r (hx.kept a ha) hr

/-- A change that adding does not notice is not noticed by reading. -/
theorem readArguments_commutes (h : Arguments.Commutes grammar P change) (hP : P found)
    (isWord : List UInt8 → Bool) (pending : Option OptionForm) (arguments : List (List UInt8)) :
    readArguments grammar isWord (change found) pending arguments =
      (readArguments grammar isWord found pending arguments).map (Prod.map change id) :=
  (readArguments_related h.relates ⟨hP, rfl⟩ isWord pending arguments).map

/-! ## Another value for an option -/

namespace Arguments

/-- With another value for an option, where it has been given. -/
def revalue (found : Arguments) (name : OptionName) (value : List UInt8) : Arguments :=
  { found with options := found.options.map fun option =>
      if option.1 = name then (name, value) else option }

theorem value?_revalue (found : Arguments) (name : OptionName) (value : List UInt8)
    (other : OptionName) : (found.revalue name value).value? other =
      if other = name then (found.value? other).map fun _ => value else found.value? other := by
  obtain ⟨options, operands⟩ := found
  simp only [value?, revalue]
  induction options with
  | nil => simp
  | cons option options ih =>
    obtain ⟨key, v⟩ := option
    rw [List.map_cons, List.lookup_cons, List.lookup_cons]
    by_cases hother : other = key
    · subst hother
      by_cases hname : other = name <;> simp [hname]
    · have hbeq : (other == key) = false := beq_false_of_ne hother
      have hbeq' : (other == (if key = name then (name, value) else (key, v)).1) = false := by
        split_ifs with hkey
        · exact beq_false_of_ne (hkey ▸ hother)
        · exact hbeq
      rw [hbeq, hbeq']
      exact ih

theorem has_revalue (found : Arguments) (name : OptionName) (value : List UInt8)
    (other : OptionName) : (found.revalue name value).has other = found.has other := by
  rw [has, value?_revalue, has]
  split_ifs <;> simp

/-- Where the option has not been given, its value is that of the one that is added. -/
theorem revalue_concat (h : found.has name = false) (value value' : List UInt8) :
    { found with options := found.options ++ [(name, value)] }.revalue name value' =
      { found with options := found.options ++ [(name, value')] } := by
  have hkeys : ∀ option ∈ found.options, option.1 ≠ name := by
    rw [has, Option.isSome_eq_false_iff, Option.isNone_iff_eq_none, value?,
      List.lookup_eq_none_iff] at h
    intro option hoption hname
    have hne := h option hoption
    rw [hname, bne_self_eq_false] at hne
    cases hne
  have hsame : (found.options.map fun option =>
      if option.1 = name then (name, value') else option) = found.options := by
    conv_rhs => rw [← List.map_id found.options]
    exact List.map_congr_left fun option hoption => if_neg (hkeys option hoption)
  rw [revalue, List.map_append, hsame]
  simp

/-- Once it has been given, an option is not given again, so what is added is something else. -/
theorem commutes_revalue (grammar : Grammar) (name : OptionName) (value : List UInt8) :
    Commutes grammar (fun found => found.has name = true) (·.revalue name value) where
  toKept := kept_has grammar name
  change_addOption {found} other v h := by
    simp only [addOption, has_revalue]
    split_ifs with hhelp hversion hbad
    · rfl
    · rfl
    · rfl
    · have hother : other ≠ name := by
        rintro rfl
        exact hbad (by simp [h])
      simp [Except.map, revalue, hother]
  change_addOperand {found} operand _ := by
    have hoperands : (found.revalue name value).operands = found.operands := rfl
    rw [addOperand, addOperand, hoperands]
    by_cases hbad : (operand.isEmpty || grammar.operandLimit ≤ found.operands.length) = true
    · rw [if_pos hbad, if_pos hbad]
      rfl
    · rw [if_neg hbad, if_neg hbad]
      rfl

end Arguments

/-! ## What stands before an option -/

theorem readOperands_of_limit (hlimit : grammar.operandLimit = 0) (found : Arguments)
    {operands : List (List UInt8)} (h : operands ≠ []) :
    readOperands grammar found operands = .error .usage := by
  cases operands with
  | nil => exact absurd rfl h
  | cons operand rest => simp [readOperands, Arguments.addOperand, hlimit, bind, Except.bind]

/-- A long option that is read, where there may be no operands: there is a word before it, or all
that stands before it is read first, whatever comes then. -/
theorem exists_before_option {isWord : List UInt8 → Bool} {argument text : List UInt8}
    {value? : Option (List UInt8)} {pending : Option OptionForm}
    {before after : List (List UInt8)} {r : Arguments × List (List UInt8)}
    (hlimit : grammar.operandLimit = 0)
    (hargument : Argument.ofBytes argument = .long text value?)
    (h : readArguments grammar isWord found pending (before ++ argument :: after) = .ok r) :
    (∃ word more, isWord word = true ∧ r.2 = word :: (more ++ argument :: after)) ∨
      ∃ found', ∀ rest, readArguments grammar isWord found pending (before ++ rest) =
        readArguments grammar isWord found' none rest := by
  induction before generalizing found pending with
  | nil =>
    cases pending with
    | none => exact .inr ⟨found, fun _ => rfl⟩
    | some form =>
      rw [List.nil_append, readArguments, hargument] at h
      cases h
  | cons first before ih =>
    rw [List.cons_append] at h
    rcases exists_first grammar isWord found pending first with
      ⟨rfl, hfirst⟩ | ⟨rfl, hfirst, hseparator⟩ | ⟨step, hstep⟩
    · rw [readArguments, if_pos hfirst] at h
      cases h
      exact .inl ⟨first, before, hfirst, rfl⟩
    · rw [readArguments, if_neg (by simp [hfirst]), hseparator] at h
      simp only [readOperands_of_limit hlimit found (show before ++ argument :: after ≠ [] by simp)]
        at h
      cases h
    · rw [hstep] at h
      obtain ⟨next, hnext, h⟩ := bind_eq_ok_iff.1 h
      refine (ih h).imp_right ?_
      rintro ⟨found', hread⟩
      refine ⟨found', fun rest => ?_⟩
      rw [List.cons_append, hstep, hnext]
      exact hread rest

end Command
end GrammarModule
