import GrammarModule.Proofs.Session.Place
import Mathlib.Order.Nat

/-!
# GrammarModule.Proofs.Session.OneShot

Registration happens once. Over a whole run a place comes into being, empty or as a copy, and is
filled at most once, by the one operation that succeeds in it (`Life`); what is offered to it later
is refused. `registration_one_shot` states this for every run from an opened session.
-/

namespace GrammarModule

/-- A host as its owner creates it. -/
inductive NewHost where
  | slot (label : String) (usable : Bool)
  | sink (label : String) (usable : Bool) (refusal : Option Refusal)

def NewHost.create : NewHost → SessionHost
  | .slot label true => .slot (.new label)
  | .slot label false => .slot (.unusable label)
  | .sink label usable refusal => .sink (.new label usable refusal)

namespace Session

/-- A session in which nothing has happened yet: functions by the addresses that they give, and
new hosts. -/
def opened (addresses : List UInt64) (entries : List Entry) (hosts : List NewHost) : Session where
  functions := addresses.map fun address => ⟨address, 0⟩
  entries := entries
  hosts := hosts.map NewHost.create
  records := []
  slots := []

variable {s : Session} {ops : List Operation} {p : Place} {n : Nat} {c : Cell}

theorem empty_of_opened {addresses : List UInt64} {entries : List Entry} {hosts : List NewHost}
    (h : (opened addresses entries hosts).cell? p = some c) : c.content = .empty := by
  cases p with
  | slot j => cases h
  | host i =>
    obtain ⟨host, hhost, hc⟩ := Option.bind_eq_some_iff.1 h
    obtain ⟨new, -, rfl⟩ := List.mem_map.1 (List.mem_of_getElem? hhost)
    cases new with
    | sink => cases hc
    | slot label usable =>
      cases usable <;> cases hc <;> rfl

/-! ## The life of a place -/

/-- The operation with this number succeeds in filling the place with the exports. -/
def FilledAt (s : Session) (ops : List Operation) (p : Place) (n : Nat) (exports : Exports) :
    Prop :=
  ∃ op o, ops[n]? = some op ∧ (s.run ops)[n]? = some (o, s.after ops (n + 1)) ∧
    op.target? = some p ∧ (s.after ops n).Delivers exports op o

/-- What is at a place when it comes into being, after that many operations. -/
inductive Born (s : Session) (ops : List Operation) (p : Place) : Nat → Cell → Prop
  | first {c : Cell} (hc : s.cell? p = some c) (he : c.content = .empty) : Born s ops p 0 c
  | made {n : Nat} (hop : ops[n]? = some .newSlot) : Born s ops p (n + 1) (.slot .empty)
  | copied {n : Nat} {op : Operation} {q : Place} {c : Cell} (hop : ops[n]? = some op)
      (hq : op.original? = some q) (hc : (s.after ops n).cell? q = some c) :
      Born s ops p (n + 1) c

/-- A place over a run: it is never there, or it is born and stays as it was, or it is born empty
and filled by one operation. -/
inductive Life (s : Session) (ops : List Operation) (p : Place) : Prop
  | absent (h : ∀ n, (s.after ops n).cell? p = none)
  | kept {b : Nat} {c : Cell} (born : Born s ops p b c)
      (before : ∀ n < b, (s.after ops n).cell? p = none)
      (same : ∀ n ≥ b, (s.after ops n).cell? p = some c)
      (never : ∀ n ≥ b, ∀ exports, ¬ FilledAt s ops p n exports)
  | filled {b f : Nat} {c : Cell} {exports : Exports} (born : Born s ops p b c)
      (before : ∀ n < b, (s.after ops n).cell? p = none) (le : b ≤ f)
      (empty : c.content = .empty)
      (meanwhile : ∀ n ≥ b, n ≤ f → (s.after ops n).cell? p = some c)
      (filled : FilledAt s ops p f exports)
      (since : ∀ n > f, (s.after ops n).cell? p = some (c.filledWith exports))
      (once : ∀ n ≥ b, ∀ exports', FilledAt s ops p n exports' → n = f)

/-! ## Steps of a run -/

theorem step_of_run {op : Operation} {o : Outcome} {t : Session} (hop : ops[n]? = some op)
    (h : (s.run ops)[n]? = some (o, t)) :
    Step (s.after ops n) op o t ∧ t = s.after ops (n + 1) := by
  rw [getElem?_run, hop, Option.map_some] at h
  have hrun := Option.some.inj h
  refine ⟨perform_step hrun, ?_⟩
  rw [after_succ hop, hrun]

/-- From one point of a run to the next a place is kept, or changed by the operation in between. -/
theorem kept_or_change (s : Session) (ops : List Operation) (p : Place) (n : Nat) :
    (s.after ops (n + 1)).cell? p = (s.after ops n).cell? p ∨
      ∃ op o, ops[n]? = some op ∧ (s.run ops)[n]? = some (o, s.after ops (n + 1)) ∧
        Change (s.after ops n) op o (s.after ops (n + 1)) p := by
  cases hop : ops[n]? with
  | none =>
    left
    rw [after_succ_of_none hop]
  | some op =>
    right
    have hrun : (s.run ops)[n]? =
        some (((perform op).run (s.after ops n)).1, s.after ops (n + 1)) := by
      rw [getElem?_run, hop, after_succ hop]
      rfl
    exact ⟨op, _, rfl, hrun, (step_of_run hop hrun).1.change p⟩

/-- A place that has been filled is never changed again. -/
theorem cell?_of_filled {exports : Exports} {m : Nat} (hc : (s.after ops n).cell? p = some c)
    (hf : c.content = .filled exports) (hm : n ≤ m) : (s.after ops m).cell? p = some c := by
  induction m, hm using Nat.le_induction with
  | base => exact hc
  | succ m _ ih =>
    rcases kept_or_change s ops p m with hkept | ⟨op, o, -, -, hchange⟩
    · rw [hkept, ih]
    · cases hchange with
      | kept ht => rw [ht, ih]
      | made _ hs | copied _ hs =>
        rw [hs] at ih
        cases ih
      | filled _ _ hs he =>
        rw [hs] at ih
        cases ih
        rw [he] at hf
        cases hf

theorem FilledAt.cell? {exports : Exports} (h : FilledAt s ops p n exports)
    (hc : (s.after ops n).cell? p = some c) :
    c.content = .empty ∧ (s.after ops (n + 1)).cell? p = some (c.filledWith exports) := by
  obtain ⟨op, o, hop, hrun, hp, hd⟩ := h
  exact (step_of_run hop hrun).1.filled hp hd hc

/-! ## The two moments of a life -/

theorem exists_first {P : Nat → Prop} (h : ∃ n, P n) : ∃ n, P n ∧ ∀ m < n, ¬ P m := by
  classical
  exact ⟨Nat.find h, Nat.find_spec h, fun _ hm => Nat.find_min h hm⟩

/-- What is somewhere in a run was born there. -/
theorem exists_born (hs : ∀ c, s.cell? p = some c → c.content = .empty)
    (h : ∃ n, (s.after ops n).cell? p ≠ none) :
    ∃ b c, Born s ops p b c ∧ (∀ n < b, (s.after ops n).cell? p = none) ∧
      (s.after ops b).cell? p = some c := by
  obtain ⟨b, hb, hmin⟩ := exists_first h
  have hbefore : ∀ n < b, (s.after ops n).cell? p = none := fun n hn => not_not.1 (hmin n hn)
  obtain ⟨c, hc⟩ := Option.ne_none_iff_exists'.1 hb
  cases b with
  | zero => exact ⟨0, c, .first hc (hs c hc), hbefore, hc⟩
  | succ n =>
    have hnone := hbefore n (Nat.lt_succ_self n)
    refine ⟨n + 1, c, ?_, hbefore, hc⟩
    rcases kept_or_change s ops p n with hkept | ⟨op, o, hop, -, hchange⟩
    · rw [hkept, hnone] at hc
      cases hc
    · cases hchange with
      | kept ht =>
        rw [ht, hnone] at hc
        cases hc
      | made hnew _ ht =>
        subst hnew
        rw [ht] at hc
        cases hc
        exact .made hop
      | copied hq _ hcopy ht =>
        rw [ht] at hc
        cases hc
        exact .copied hop hq hcopy
      | filled _ _ hold =>
        rw [hnone] at hold
        cases hold

/-- What does not stay as it was is filled at some point, and was empty up to then. -/
theorem exists_filledAt {b : Nat} (hc : (s.after ops b).cell? p = some c)
    (h : ∃ n, n ≥ b ∧ (s.after ops n).cell? p ≠ some c) :
    ∃ f exports, b ≤ f ∧ c.content = .empty ∧
      (∀ n ≥ b, n ≤ f → (s.after ops n).cell? p = some c) ∧ FilledAt s ops p f exports := by
  obtain ⟨m, ⟨hm, hne⟩, hmin⟩ := exists_first h
  have hsame : ∀ n ≥ b, n < m → (s.after ops n).cell? p = some c := by
    intro n hn hlt
    by_contra hn'
    exact hmin n hlt ⟨hn, hn'⟩
  cases m with
  | zero =>
    obtain rfl : b = 0 := by omega
    exact absurd hc hne
  | succ f =>
    have hb : b ≤ f := by
      by_contra hlt
      obtain rfl : b = f + 1 := by omega
      exact hne hc
    have hf := hsame f hb (Nat.lt_succ_self f)
    rcases kept_or_change s ops p f with hkept | ⟨op, o, hop, hrun, hchange⟩
    · exact absurd (hkept.trans hf) hne
    · cases hchange with
      | kept ht => exact absurd (ht.trans hf) hne
      | made _ hold | copied _ hold =>
        rw [hold] at hf
        cases hf
      | filled hp hd hold he =>
        rw [hf] at hold
        cases hold
        exact ⟨f, _, hb, he, fun n hn hle => hsame n hn (by omega), op, o, hop, hrun, hp, hd⟩

theorem content_ne {exports : Exports} (he : c.content = .empty) :
    c ≠ c.filledWith exports := by
  intro h
  have hcontent := congrArg Cell.content h
  rw [Cell.content_filledWith, he] at hcontent
  cases hcontent

theorem life (hs : ∀ c, s.cell? p = some c → c.content = .empty) : Life s ops p := by
  by_cases hsome : ∃ n, (s.after ops n).cell? p ≠ none
  · obtain ⟨b, c, hborn, hbefore, hc⟩ := exists_born hs hsome
    by_cases hchanged : ∃ n, n ≥ b ∧ (s.after ops n).cell? p ≠ some c
    · obtain ⟨f, exports, hb, he, hmeanwhile, hfilled⟩ := exists_filledAt hc hchanged
      obtain ⟨-, hnow⟩ := hfilled.cell? (hmeanwhile f hb (Nat.le_refl f))
      have hsince : ∀ n > f, (s.after ops n).cell? p = some (c.filledWith exports) := by
        intro n hn
        exact cell?_of_filled hnow (c.content_filledWith exports) hn
      refine .filled hborn hbefore hb he hmeanwhile hfilled hsince ?_
      intro n hn exports' hagain
      rcases Nat.lt_trichotomy n f with hlt | heq | hgt
      · -- the place is still empty after step `n`
        obtain ⟨-, hthen⟩ := hagain.cell? (hmeanwhile n hn (by omega))
        rw [hmeanwhile (n + 1) (by omega) (by omega)] at hthen
        exact absurd (Option.some.inj hthen) (content_ne he)
      · exact heq
      · -- the place is taken before step `n`
        obtain ⟨hempty, -⟩ := hagain.cell? (hsince n hgt)
        rw [Cell.content_filledWith] at hempty
        cases hempty
    · have hsame : ∀ n ≥ b, (s.after ops n).cell? p = some c := by
        intro n hn
        by_contra hne
        exact hchanged ⟨n, hn, hne⟩
      refine .kept hborn hbefore hsame ?_
      intro n hn exports hfilled
      obtain ⟨he, hnow⟩ := hfilled.cell? (hsame n hn)
      rw [hsame (n + 1) (by omega)] at hnow
      exact absurd (Option.some.inj hnow) (content_ne he)
  · refine .absent ?_
    intro n
    by_contra hn
    exact hsome ⟨n, hn⟩

/-- In every run, each place that keeps exports begins empty, or as what it is a copy of, and
changes at most once, when the one operation that succeeds in it fills it with the exports that the
operation returned or was given. An offer to a place that is taken is refused with the name that it
holds; a failed step changes no place and no record; and a step changes no place but the one that
it aims at. -/
theorem registration_one_shot (addresses : List UInt64) (entries : List Entry)
    (hosts : List NewHost) (ops : List Operation) :
    let s := opened addresses entries hosts
    (∀ p, Life s ops p) ∧
    ∀ n op o t, ops[n]? = some op → (s.run ops)[n]? = some (o, t) →
      (∀ p c existing, (s.after ops n).cell? p = some c → c.content = .filled existing →
        (s.after ops n).Reaches op p →
        o.failure? = some (.alreadyRegistered existing.name) ∧ t.cell? p = some c) ∧
      (∀ failure, o.failure? = some failure →
        (∀ p, t.cell? p = (s.after ops n).cell? p) ∧ t.records = (s.after ops n).records) ∧
      ∀ p c, (s.after ops n).cell? p = some c → op.target? ≠ some p → t.cell? p = some c := by
  intro s
  constructor
  · intro p
    exact life fun c hc => empty_of_opened hc
  · intro n op o t hop hrun
    obtain ⟨hstep, -⟩ := step_of_run hop hrun
    refine ⟨?_, ?_, ?_⟩
    · intro p c existing hc he hr
      rcases hstep.of_reaches hr hc with ⟨hempty, -⟩ | ⟨existing', he', hf⟩
      · rw [hempty] at he
        cases he
      · rw [he'] at he
        cases he
        rw [(hstep.eq_of_failure hf).1 p]
        exact ⟨hf, hc⟩
    · intro failure hf
      exact hstep.eq_of_failure hf
    · intro p c hc hp
      exact hstep.cell?_eq_of_ne hc hp

end Session
end GrammarModule
