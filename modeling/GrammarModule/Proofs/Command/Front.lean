import GrammarModule.Proofs.Command.Related

/-!
# GrammarModule.Proofs.Command.Front

Command lines with one option more in front. What comes after it is read as it would be without it,
unless the option is given again, which is refused (`readArguments_front`). `Front` compares the two
readings; it holds of each addition and composes (`relates_front`).
-/

namespace GrammarModule
namespace Command

open Json (bind_eq_ok_iff)

variable {β γ : Type} {grammar : Grammar} {found found' : Arguments} {name : OptionName}
  {value : List UInt8}

/-- With an option before the others. -/
def Arguments.withFirst (found : Arguments) (name : OptionName) (value : List UInt8) : Arguments :=
  { found with options := (name, value) :: found.options }

namespace Arguments

theorem operands_withFirst (found : Arguments) (name : OptionName) (value : List UInt8) :
    (found.withFirst name value).operands = found.operands := rfl

theorem value?_withFirst (found : Arguments) (name : OptionName) (value : List UInt8)
    (other : OptionName) : (found.withFirst name value).value? other =
      if other = name then some value else found.value? other := by
  rw [value?, withFirst, List.lookup_cons]
  split
  · next h => rw [if_pos (eq_of_beq h)]
  · next h => rw [if_neg (by simpa using h), value?]

theorem has_withFirst_self (found : Arguments) (name : OptionName) (value : List UInt8) :
    (found.withFirst name value).has name = true := by
  simp [has, value?_withFirst]

theorem has_withFirst_of_ne {other : OptionName} (h : other ≠ name) :
    (found.withFirst name value).has other = found.has other := by
  simp [has, value?_withFirst, h]

/-- What has been given stays given. -/
theorem kept_has (grammar : Grammar) (name : OptionName) :
    Kept grammar fun found => found.has name = true where
  addOption := by
    intro found found' other value h hadd
    rw [addOption] at hadd
    split_ifs at hadd
    cases hadd
    obtain ⟨v, hv⟩ := Option.isSome_iff_exists.1 h
    rw [value?] at hv
    simp [has, value?, List.lookup_append, hv]
  addOperand := by
    intro found found' operand h hadd
    rw [addOperand] at hadd
    split_ifs at hadd
    cases hadd
    exact h

end Arguments

/-- How a reading `after` that starts with an option in front goes, compared with a reading `plain`
without it: it gives the same with the option in front, or refuses the option that is given again,
and it refuses what is ill formed anyway. -/
structure Front (name : OptionName) (value : List UInt8)
    (plain after : Except Stop (Arguments × β)) : Prop where
  same : ∀ r, plain = .ok r → r.1.has name = false → after = .ok (r.1.withFirst name value, r.2)
  again : ∀ r, plain = .ok r → r.1.has name = true → after = .error .usage
  usage : plain = .error .usage → after = .error .usage

namespace Front

theorem of_ok {found : Arguments} (h : found.has name = false) (b : β) :
    Front name value (.ok (found, b)) (.ok (found.withFirst name value, b)) where
  same := by
    rintro r ⟨⟩ -
    rfl
  again := by
    rintro r ⟨⟩ hr
    rw [h] at hr
    cases hr
  usage h := by cases h

theorem of_error (stop : Stop) :
    Front name value (.error stop : Except Stop (Arguments × β)) (.error stop) where
  same := by rintro r ⟨⟩
  again := by rintro r ⟨⟩
  usage := id

/-- The option is given again in what is read without it. -/
theorem of_repeated {plain : Except Stop (Arguments × β)}
    (h : ∀ r, plain = .ok r → r.1.has name = true) :
    Front name value plain (.error .usage) where
  same r hr hnot := by
    rw [h r hr] at hnot
    cases hnot
  again _ _ _ := rfl
  usage _ := rfl

/-- A second part of the reading, which forgets no option. -/
theorem bind {plain after : Except Stop (Arguments × β)}
    {next : Arguments × β → Except Stop (Arguments × γ)} (h : Front name value plain after)
    (hnext : ∀ r, r.1.has name = false →
      Front name value (next r) (next (r.1.withFirst name value, r.2)))
    (hkept : ∀ r r', r.1.has name = true → next r = .ok r' → r'.1.has name = true) :
    Front name value (plain >>= next) (after >>= next) := by
  cases plain with
  | error stop =>
    refine ⟨by rintro r ⟨⟩, by rintro r ⟨⟩, fun husage => ?_⟩
    cases husage
    rw [h.usage rfl]
    rfl
  | ok r =>
    cases hhas : r.1.has name with
    | false =>
      rw [h.same r rfl hhas]
      exact hnext r hhas
    | true =>
      rw [h.again r rfl hhas]
      exact .of_repeated fun r' hr' => hkept r r' hhas hr'

variable {next : Arguments → Except Stop (Arguments × β)}

theorem addOption (h : found.has name = false) (other : OptionName) (v : List UInt8)
    (hnext : ∀ found, found.has name = false →
      Front name value (next found) (next (found.withFirst name value)))
    (hkept : ∀ found r, found.has name = true → next found = .ok r → r.1.has name = true) :
    Front name value (found.addOption grammar other v >>= next)
      ((found.withFirst name value).addOption grammar other v >>= next) := by
  simp only [Arguments.addOption]
  by_cases hhelp : other = .help
  · rw [if_pos hhelp, if_pos hhelp]
    exact .of_error .help
  by_cases hversion : other = .version
  · rw [if_neg hhelp, if_pos hversion, if_neg hhelp, if_pos hversion]
    exact .of_error .version
  rw [if_neg hhelp, if_neg hversion, if_neg hhelp, if_neg hversion]
  by_cases hother : other = name
  · subst hother
    rw [Arguments.has_withFirst_self, Bool.true_or, if_pos rfl]
    refine .of_repeated fun r hr => ?_
    obtain ⟨found', hadd, hr⟩ := bind_eq_ok_iff.1 hr
    split_ifs at hadd
    cases hadd
    refine hkept _ r ?_ hr
    rw [Arguments.has, Arguments.value?] at h
    simp [Arguments.has, Arguments.value?, List.lookup_append]
  · rw [Arguments.has_withFirst_of_ne hother]
    split_ifs
    · exact .of_error .usage
    · refine hnext _ ?_
      rw [Arguments.has, Arguments.value?] at h
      simp [Arguments.has, Arguments.value?, List.lookup_append, Option.isSome_eq_false_iff.1 h,
        Ne.symm hother]

theorem addOperand (h : found.has name = false) (operand : List UInt8)
    (hnext : ∀ found, found.has name = false →
      Front name value (next found) (next (found.withFirst name value))) :
    Front name value (found.addOperand grammar operand >>= next)
      ((found.withFirst name value).addOperand grammar operand >>= next) := by
  rw [Arguments.addOperand, Arguments.addOperand, Arguments.operands_withFirst]
  by_cases hbad : (operand.isEmpty || grammar.operandLimit ≤ found.operands.length) = true
  · rw [if_pos hbad, if_pos hbad]
    exact .of_error .usage
  · rw [if_neg hbad, if_neg hbad]
    exact hnext _ h

end Front

/-! ## Reading -/

theorem relates_front (grammar : Grammar) (name : OptionName) (value : List UInt8) :
    Arguments.Relates grammar (fun found => found.has name = true)
      (fun found found' => found.has name = false ∧ found' = found.withFirst name value)
      (fun _ => Front name value) where
  toKept := Arguments.kept_has grammar name
  ok b := by
    rintro ⟨h, rfl⟩
    exact .of_ok h b
  error := .of_error
  bindOption other v hfront hnext hkept := by
    obtain ⟨h, rfl⟩ := hfront
    exact .addOption h other v (fun found hfound => hnext found _ ⟨hfound, rfl⟩) hkept
  bindOperand operand hfront hnext := by
    obtain ⟨h, rfl⟩ := hfront
    exact .addOperand h operand fun found hfound => hnext found _ ⟨hfound, rfl⟩
  bind h hnext hkept := h.bind (fun r hr => hnext r.1 _ r.2 ⟨hr, rfl⟩) hkept

/-- What comes after an option in front is read as it would be without it. -/
theorem readArguments_front (h : found.has name = false) (isWord : List UInt8 → Bool)
    (pending : Option OptionForm) (arguments : List (List UInt8)) :
    Front name value (readArguments grammar isWord found pending arguments)
      (readArguments grammar isWord (found.withFirst name value) pending arguments) :=
  readArguments_related (relates_front grammar name value) ⟨h, rfl⟩ isWord pending arguments

end Command
end GrammarModule
