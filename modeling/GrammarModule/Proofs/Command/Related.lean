import GrammarModule.Proofs.Command.Options

/-!
# GrammarModule.Proofs.Command.Related

Two readings of the same arguments that start from different options. How far they agree is up to a
relation between their results, which has to hold of single additions and to compose
(`Arguments.Relates`); then it holds of what is read (`readArguments_related`).
-/

namespace GrammarModule
namespace Command

/-- Readings that start from what `R` relates have results that `Q` relates. What comes after a part
of a reading may rely on `P`, which adding keeps. -/
structure Arguments.Relates (grammar : Grammar) (P : Arguments → Prop)
    (R : Arguments → Arguments → Prop)
    (Q : (β : Type) → Except Stop (Arguments × β) → Except Stop (Arguments × β) → Prop) : Prop
    extends Kept grammar P where
  ok {f f' : Arguments} {β : Type} (b : β) : R f f' → Q β (.ok (f, b)) (.ok (f', b))
  error {β : Type} (stop : Stop) : Q β (.error stop) (.error stop)
  bindOption {f f' : Arguments} {β : Type} {next : Arguments → Except Stop (Arguments × β)}
    (name : OptionName) (value : List UInt8) : R f f' →
    (∀ g g', R g g' → Q β (next g) (next g')) → (∀ g r, P g → next g = .ok r → P r.1) →
    Q β (f.addOption grammar name value >>= next) (f'.addOption grammar name value >>= next)
  bindOperand {f f' : Arguments} {β : Type} {next : Arguments → Except Stop (Arguments × β)}
    (operand : List UInt8) : R f f' → (∀ g g', R g g' → Q β (next g) (next g')) →
    Q β (f.addOperand grammar operand >>= next) (f'.addOperand grammar operand >>= next)
  bind {β γ : Type} {x x' : Except Stop (Arguments × β)}
    {next : Arguments × β → Except Stop (Arguments × γ)} : Q β x x' →
    (∀ g g' b, R g g' → Q γ (next (g, b)) (next (g', b))) →
    (∀ r r', P r.1 → next r = .ok r' → P r'.1) → Q γ (x >>= next) (x' >>= next)

variable {grammar : Grammar} {P : Arguments → Prop} {R : Arguments → Arguments → Prop}
  {Q : (β : Type) → Except Stop (Arguments × β) → Except Stop (Arguments × β) → Prop}
  {found found' : Arguments}

theorem readLetters_related (h : Arguments.Relates grammar P R Q) (hR : R found found')
    (letters : List UInt8) :
    Q _ (readLetters grammar found letters) (readLetters grammar found' letters) := by
  induction letters generalizing found found' with
  | nil => exact h.ok none hR
  | cons letter rest ih =>
    rw [readLetters, readLetters]
    split
    · exact h.error .usage
    · split_ifs
      · split
        · exact h.ok _ hR
        · refine h.bindOption _ _ hR (fun g g' hg => h.ok none hg) ?_
          rintro g r hg ⟨⟩
          exact hg
      · refine h.bindOption _ _ hR (fun g g' hg => ih hg) ?_
        exact fun g r hg hr => readLetters_kept h.toKept hg hr

theorem readLong_related (h : Arguments.Relates grammar P R Q) (hR : R found found')
    (text : List UInt8) (value? : Option (List UInt8)) :
    Q _ (readLong grammar found text value?) (readLong grammar found' text value?) := by
  have hend : ∀ (g : Arguments) (r : Arguments × Option OptionForm), P g →
      .ok (g, none) = (.ok r : Except Stop _) → P r.1 := by
    rintro g r hg ⟨⟩
    exact hg
  simp only [readLong]
  split
  · exact h.error .usage
  · split_ifs
    · exact h.bindOption _ _ hR (fun g g' hg => h.ok none hg) hend
    · exact h.error .usage
  · split_ifs
    · exact h.ok _ hR
    · exact h.bindOption _ _ hR (fun g g' hg => h.ok none hg) hend

theorem readOperands_related {β : Type} (h : Arguments.Relates grammar P R Q) (hR : R found found')
    (operands : List (List UInt8)) (b : β) :
    Q β (readOperands grammar found operands >>= fun g => .ok (g, b))
      (readOperands grammar found' operands >>= fun g => .ok (g, b)) := by
  induction operands generalizing found found' with
  | nil => exact h.ok b hR
  | cons operand rest ih =>
    simp only [readOperands, bind_assoc]
    exact h.bindOperand operand hR fun g g' hg => ih hg

theorem readArguments_related (h : Arguments.Relates grammar P R Q) (hR : R found found')
    (isWord : List UInt8 → Bool) (pending : Option OptionForm) (arguments : List (List UInt8)) :
    Q _ (readArguments grammar isWord found pending arguments)
      (readArguments grammar isWord found' pending arguments) := by
  have hkept : ∀ (pending : Option OptionForm) (arguments : List (List UInt8)) (g : Arguments)
      (r : Arguments × List (List UInt8)), P g →
      readArguments grammar isWord g pending arguments = .ok r → P r.1 :=
    fun _ _ _ _ hg hr => readArguments_kept h.toKept hg hr
  induction arguments generalizing found found' pending with
  | nil =>
    cases pending with
    | none => exact h.ok [] hR
    | some form => exact h.error .usage
  | cons argument rest ih =>
    cases pending with
    | some form =>
      rw [readArguments, readArguments]
      split
      · exact h.bindOption _ _ hR (fun g g' hg => ih hg none) (hkept none rest)
      · exact h.error .usage
    | none =>
      rw [readArguments, readArguments]
      split_ifs
      · exact h.ok _ hR
      · split
        · exact readOperands_related h hR rest []
        · refine h.bind (readLong_related h hR _ _) (fun g g' pending hg => ih hg pending) ?_
          exact fun r r' hr hr' => hkept r.2 rest r.1 r' hr hr'
        · refine h.bind (readLetters_related h hR _) (fun g g' pending hg => ih hg pending) ?_
          exact fun r r' hr hr' => hkept r.2 rest r.1 r' hr hr'
        · exact h.bindOperand _ hR fun g g' hg => ih hg none

end Command
end GrammarModule
