import GrammarModule.Proofs.Session.Alike
import Mathlib.Algebra.BigOperators.Group.Finset.Piecewise
import Mathlib.Data.Fin.Embedding
import Mathlib.Data.Fintype.Basic

/-!
# GrammarModule.Proofs.Session.Loaders

Loaders that share a session. Each has a host of its own and keeps the numbers of the records that
it obtained; entries and their functions are shared, and nobody changes an address. Two shared
sessions agree for a loader (`Agree`) when it cannot tell them apart: calls that others made and
records that others obtained are no part of what it sees. A step changes nothing that another
loader sees, and sessions that agree answer it alike (`SharedSession.perform_together`). So every
interleaving gives each loader what it gets alone: `loaders_do_not_interfere`.
-/

namespace GrammarModule

/-- A step of a loader, on its own host or on none. -/
inductive LoaderStep where
  | load (entry : Nat) (hosted : Bool)
  | register (entry : Nat) (hosted : Bool)
  /-- Publishes a record to the own host; records are numbered as the loader obtained them. -/
  | publish (record : Nat)
  deriving DecidableEq, Repr

namespace LoaderStep

/-- The operation that a step stands for, if the loader has what it names. -/
def operation? (host : Nat) (obtained : List Nat) : LoaderStep → Option Operation
  | .load entry hosted => some (.load entry (if hosted then some host else none))
  | .register entry hosted => some (.register entry (if hosted then some host else none))
  | .publish record => obtained[record]?.map (.publish host)

/-- The entry that a step goes through. -/
def through? : LoaderStep → Option Nat
  | .load entry _ | .register entry _ => some entry
  | .publish _ => none

end LoaderStep

/-! ## Shared sessions -/

/-- A session that several loaders work on, and the numbers of the records that each obtained. -/
structure SharedSession (ι : Type) where
  session : Session
  obtained : ι → List Nat

namespace SharedSession

variable {ι : Type} [DecidableEq ι] {s s' t t' : SharedSession ι} {i j : ι} {host : Nat}
  {o : Outcome} {asked : Nat → Nat}

/-- What belongs to one of several, in order. -/
def own {α : Type} (i : ι) (l : List (ι × α)) : List α :=
  (l.filter fun entry => entry.1 = i).map (·.2)

/-- The session before any loader has obtained a record. -/
def start (s : Session) : SharedSession ι := ⟨s, fun _ => []⟩

/-- The shared session after an operation of a loader: a record that it obtained has the next
number. -/
def obtaining (s : SharedSession ι) (i : ι) (o : Outcome) (next : Session) : SharedSession ι where
  session := next
  obtained := Function.update s.obtained i
    (s.obtained i ++ o.exports?.toList.map fun _ => s.session.records.length)

/-- A loader takes a step on its host. -/
def perform (s : SharedSession ι) (host : Nat) (i : ι) (step : LoaderStep) :
    Outcome × SharedSession ι :=
  match step.operation? host (s.obtained i) with
  | none => (.absent, s)
  | some op =>
    let (o, next) := (Session.perform op).run s.session
    (o, s.obtaining i o next)

/-- Loaders take steps in the given order: who took which step, with its outcome, and the session
after them. -/
def run (host : ι → Nat) (s : SharedSession ι) :
    List (ι × LoaderStep) → List (ι × LoaderStep × Outcome) × SharedSession ι
  | [] => ([], s)
  | (i, step) :: rest =>
    let (o, next) := s.perform (host i) i step
    let (events, last) := next.run host rest
    ((i, step, o) :: events, last)

/-- The records of a loader, in the order in which it obtained them. -/
def recordsOf (s : SharedSession ι) (i : ι) : List (Option Exports) :=
  (s.obtained i).map fun k => s.session.records[k]?

/-- The numbers are those of records. -/
def Numbered (s : SharedSession ι) : Prop := ∀ i, ∀ k ∈ s.obtained i, k < s.session.records.length

/-- A loader has the same view of two sessions. -/
structure Agree (host : Nat) (i : ι) (s t : SharedSession ι) : Prop where
  numbered : s.Numbered
  numbered' : t.Numbered
  alike : s.session.Alike host t.session
  records : s.recordsOf i = t.recordsOf i

omit [DecidableEq ι] in
theorem agree_start (host : Nat) (i : ι) (s : Session) : Agree host i (start s) (start s) where
  numbered := by simp [Numbered, start]
  numbered' := by simp [Numbered, start]
  alike := .refl host s
  records := rfl

/-- What the step of a loader does to a shared session, its own host apart. -/
structure Moves (host : Nat) (i : ι) (s s' : SharedSession ι) (o : Outcome) (asked : Nat → Nat) :
    Prop where
  session : s.session.Advance host s'.session o.exports?.toList asked
  obtained : s'.obtained = Function.update s.obtained i
    (s.obtained i ++ o.exports?.toList.map fun _ => s.session.records.length)

theorem map_getElem?_append {α : Type} (l new : List α) {numbers : List Nat}
    (h : ∀ k ∈ numbers, k < l.length) :
    numbers.map (fun k => (l ++ new)[k]?) = numbers.map fun k => l[k]? := by
  apply List.map_congr_left
  intro k hk
  exact List.getElem?_append_left (h k hk)

theorem Moves.recordsOf_self (h : Moves host i s s' o asked) (hs : s.Numbered) :
    s'.recordsOf i = s.recordsOf i ++ o.exports?.toList.map some := by
  rw [recordsOf, h.obtained, Function.update_self, h.session.records, List.map_append,
    map_getElem?_append _ _ (hs i), recordsOf]
  cases o.exports? <;> simp

theorem Moves.recordsOf_of_ne (h : Moves host i s s' o asked) (hs : s.Numbered) (hj : j ≠ i) :
    s'.recordsOf j = s.recordsOf j := by
  rw [recordsOf, h.obtained, Function.update_of_ne hj, h.session.records,
    map_getElem?_append _ _ (hs j), recordsOf]

theorem Moves.numbered (h : Moves host i s s' o asked) (hs : s.Numbered) : s'.Numbered := by
  intro j k hk
  rw [h.session.records, List.length_append]
  by_cases hj : j = i
  · subst hj
    rw [h.obtained, Function.update_self] at hk
    rcases List.mem_append.1 hk with hk | hk
    · exact Nat.lt_add_right _ (hs j k hk)
    · obtain ⟨exports, he, rfl⟩ := List.mem_map.1 hk
      have := List.length_pos_of_mem he
      omega
  · rw [h.obtained, Function.update_of_ne hj] at hk
    exact Nat.lt_add_right _ (hs j k hk)

/-- A step goes alike in two sessions. -/
structure Together (host : Nat) (i : ι) (step : LoaderStep) (s t : SharedSession ι) (o : Outcome)
    (s' t' : SharedSession ι) (asked : Nat → Nat) : Prop where
  left : s.perform host i step = (o, s')
  right : t.perform host i step = (o, t')
  moves : Moves host i s s' o asked
  moves' : Moves host i t t' o asked
  host : s'.session.hosts[host]? = t'.session.hosts[host]?

/-- The steps of others are no part of a view. -/
theorem Moves.agree_of_ne {other : Nat} (h : Moves host i s s' o asked) (hj : j ≠ i)
    (hhost : other ≠ host) (ha : Agree other j s t) : Agree other j s' t where
  numbered := h.numbered ha.numbered
  numbered' := ha.numbered'
  alike := ⟨h.session.entries.trans ha.alike.entries, h.session.addresses.trans ha.alike.addresses,
    (h.session.others other hhost).trans ha.alike.host⟩
  records := (h.recordsOf_of_ne ha.numbered hj).trans ha.records

theorem Together.agree {step : LoaderStep} (h : Together host i step s t o s' t' asked)
    (ha : Agree host i s t) : Agree host i s' t' where
  numbered := h.moves.numbered ha.numbered
  numbered' := h.moves'.numbered ha.numbered'
  alike := by
    refine ⟨?_, ?_, h.host⟩
    · rw [h.moves.session.entries, h.moves'.session.entries, ha.alike.entries]
    · rw [h.moves.session.addresses, h.moves'.session.addresses, ha.alike.addresses]
  records := by
    rw [h.moves.recordsOf_self ha.numbered, h.moves'.recordsOf_self ha.numbered', ha.records]

theorem together_of_performs {step : LoaderStep} {op op' : Operation}
    (hs : step.operation? host (s.obtained i) = some op)
    (ht : step.operation? host (t.obtained i) = some op')
    (h : Session.PerformsAlike host s.session t.session op op') :
    ∃ o s' t' asked, Together host i step s t o s' t' asked := by
  obtain ⟨o, s', t', hrun, hrun', hhost, asked, ha, ha'⟩ := h
  refine ⟨o, s.obtaining i o s', t.obtaining i o t', asked, ?_, ?_, ⟨ha, rfl⟩, ⟨ha', rfl⟩, hhost⟩
  · simp only [perform, hs, hrun]
  · simp only [perform, ht, hrun']

theorem together_absent {step : LoaderStep} (hs : step.operation? host (s.obtained i) = none)
    (ht : step.operation? host (t.obtained i) = none) (ha : Agree host i s t) :
    ∃ o s' t' asked, Together host i step s t o s' t' asked := by
  obtain ⟨asked, h, h'⟩ := ha.alike.together.advance
  refine ⟨.absent, s, t, asked, ?_, ?_, ⟨h, ?_⟩, ⟨h', ?_⟩, ha.alike.host⟩
  · simp only [perform, hs]
  · simp only [perform, ht]
  · simp [Outcome.exports?]
  · simp [Outcome.exports?]

theorem perform_together (ha : Agree host i s t) (step : LoaderStep) :
    ∃ o s' t' asked, Together host i step s t o s' t' asked := by
  have hown : ∀ hosted : Bool, ∀ j ∈ (if hosted then some host else none), j = host := by
    intro hosted j hj
    cases hosted <;> simp at hj
    exact hj.symm
  cases step with
  | load n hosted => exact together_of_performs rfl rfl (ha.alike.load (hown hosted) n)
  | register n hosted => exact together_of_performs rfl rfl (ha.alike.register (hown hosted) n)
  | publish k =>
    have hk := congrArg (·[k]?) ha.records
    simp only [recordsOf, List.getElem?_map] at hk
    cases hsk : (s.obtained i)[k]? with
    | none =>
      have htk : (t.obtained i)[k]? = none := by simpa [hsk] using hk.symm
      exact together_absent (by simp [LoaderStep.operation?, hsk])
        (by simp [LoaderStep.operation?, htk]) ha
    | some m =>
      rw [hsk, Option.map_some] at hk
      obtain ⟨m', htk, hm'⟩ := Option.map_eq_some_iff.1 hk.symm
      have hm := List.getElem?_eq_getElem (ha.numbered i m (List.mem_of_getElem? hsk))
      exact together_of_performs (by simp [LoaderStep.operation?, hsk])
        (by simp [LoaderStep.operation?, htk]) (ha.alike.publish hm (hm'.trans hm))

/-! ## Runs -/

theorem own_cons_self {α : Type} (i : ι) (a : α) (l : List (ι × α)) :
    own i ((i, a) :: l) = a :: own i l := by
  simp [own]

theorem own_cons_of_ne {α : Type} (h : j ≠ i) (a : α) (l : List (ι × α)) :
    own i ((j, a) :: l) = own i l := by
  simp [own, h]

/-- The order of the steps of one loader on its own. -/
def alone (i : ι) (schedule : List (ι × LoaderStep)) : List (ι × LoaderStep) :=
  (own i schedule).map (Prod.mk i)

theorem alone_cons_self (i : ι) (step : LoaderStep) (schedule : List (ι × LoaderStep)) :
    alone i ((i, step) :: schedule) = (i, step) :: alone i schedule := by
  simp [alone, own_cons_self]

theorem alone_cons_of_ne (h : j ≠ i) (step : LoaderStep) (schedule : List (ι × LoaderStep)) :
    alone i ((j, step) :: schedule) = alone i schedule := by
  simp [alone, own_cons_of_ne h]

theorem run_cons {hosts : ι → Nat} {step : LoaderStep} {rest : List (ι × LoaderStep)}
    (h : s.perform (hosts i) i step = (o, s')) : s.run hosts ((i, step) :: rest) =
      ((i, step, o) :: (s'.run hosts rest).1, (s'.run hosts rest).2) := by
  simp only [run, h]

/-- A run is for each loader what it is without the others. -/
theorem run_alone (hosts : ι ↪ Nat) (i : ι) (schedule : List (ι × LoaderStep))
    {s t : SharedSession ι} (ha : Agree (hosts i) i s t) :
    own i (s.run hosts schedule).1 = own i (t.run hosts (alone i schedule)).1 ∧
      Agree (hosts i) i (s.run hosts schedule).2 (t.run hosts (alone i schedule)).2 := by
  induction schedule generalizing s t with
  | nil => exact ⟨rfl, ha⟩
  | cons entry rest ih =>
    obtain ⟨j, step⟩ := entry
    by_cases hj : i = j
    · subst hj
      obtain ⟨o, s', t', asked, h⟩ := perform_together ha step
      obtain ⟨hown, hagree⟩ := ih (h.agree ha)
      rw [alone_cons_self, run_cons h.left, run_cons h.right, own_cons_self, own_cons_self, hown]
      exact ⟨rfl, hagree⟩
    · -- a step of another loader leaves the view as it is
      have hself : Agree (hosts j) j s s := ⟨ha.numbered, ha.numbered, .refl _ _, rfl⟩
      obtain ⟨o, s', t', asked, h⟩ := perform_together hself step
      rw [alone_cons_of_ne (Ne.symm hj), run_cons h.left, own_cons_of_ne (Ne.symm hj)]
      exact ih (h.moves.agree_of_ne hj (hosts.injective.ne hj) ha)

/-- The calls of a run are those that each loader makes alone. -/
theorem calls_run [Fintype ι] (hosts : ι ↪ Nat) (k : Nat) (schedule : List (ι × LoaderStep))
    {s : SharedSession ι} {t : ι → SharedSession ι} (ha : ∀ i, Agree (hosts i) i s (t i)) :
    ∃ made : ι → Nat,
      (∀ i, ((t i).run hosts (alone i schedule)).2.session.calls k =
        (t i).session.calls k + made i) ∧
      (s.run hosts schedule).2.session.calls k = s.session.calls k + ∑ i, made i := by
  induction schedule generalizing s t with
  | nil => exact ⟨fun _ => 0, fun _ => rfl, by simp [run]⟩
  | cons entry rest ih =>
    obtain ⟨j, step⟩ := entry
    obtain ⟨o, s', t', asked, h⟩ := perform_together (ha j) step
    have hagree : ∀ i, Agree (hosts i) i s' (Function.update t j t' i) := by
      intro i
      by_cases hi : i = j
      · subst hi
        rw [Function.update_self]
        exact h.agree (ha i)
      · rw [Function.update_of_ne hi]
        exact h.moves.agree_of_ne hi (hosts.injective.ne hi) (ha i)
    obtain ⟨made, hmade, hsum⟩ := ih hagree
    refine ⟨fun i => made i + if i = j then asked k else 0, ?_, ?_⟩
    · intro i
      have hi' := hmade i
      by_cases hi : i = j
      · subst hi
        rw [Function.update_self, h.moves'.session.calls] at hi'
        rw [alone_cons_self, run_cons h.right, hi']
        simp only [if_true]
        omega
      · rw [Function.update_of_ne hi] at hi'
        rw [alone_cons_of_ne (Ne.symm hi), hi']
        simp only [if_neg hi, Nat.add_zero]
    · rw [run_cons h.left, hsum, h.moves.session.calls, Finset.sum_add_distrib,
        Finset.sum_ite_eq' Finset.univ j fun _ => asked k, if_pos (Finset.mem_univ j)]
      omega

/-- Every step has an outcome. -/
theorem steps_run (hosts : ι → Nat) (s : SharedSession ι) (schedule : List (ι × LoaderStep)) :
    (s.run hosts schedule).1.map (fun event => (event.1, event.2.1)) = schedule := by
  induction schedule generalizing s with
  | nil => rfl
  | cons entry rest ih => exact congrArg (entry :: ·) (ih _)

theorem perform_handle? {step : LoaderStep} {exports : Exports}
    (h : s.perform host i step = (o, s')) (ho : o.exports? = some exports) :
    ∃ n e, step.through? = some n ∧ s.session.entries[n]? = some e ∧
      s.session.handle? e = some exports.handle := by
  cases hop : step.operation? host (s.obtained i) with
  | none =>
    simp only [perform, hop] at h
    cases h
    cases ho
  | some op =>
    simp only [perform, hop] at h
    cases h
    obtain ⟨n, e, hn, he⟩ := (Session.perform_step rfl).handle?_of_exports ho
    refine ⟨n, e, ?_, he⟩
    cases step with
    | load => cases hop; exact hn
    | register => cases hop; exact hn
    | publish k =>
      obtain ⟨m, -, rfl⟩ := Option.map_eq_some_iff.1 hop
      cases hn

/-- All records of a run come from the addresses that the functions give at its beginning. -/
theorem run_handle? (hosts : ι → Nat) (schedule : List (ι × LoaderStep)) {s : SharedSession ι}
    (hs : s.Numbered) {event : ι × LoaderStep × Outcome} {exports : Exports}
    (h : event ∈ (s.run hosts schedule).1) (ho : event.2.2.exports? = some exports) :
    ∃ n e, event.2.1.through? = some n ∧ s.session.entries[n]? = some e ∧
      s.session.handle? e = some exports.handle := by
  induction schedule generalizing s with
  | nil => cases h
  | cons entry rest ih =>
    obtain ⟨i, step⟩ := entry
    have hself : Agree (hosts i) i s s := ⟨hs, hs, .refl _ _, rfl⟩
    obtain ⟨o, s', t', asked, hstep⟩ := perform_together hself step
    rw [run_cons hstep.left] at h
    rcases List.mem_cons.1 h with rfl | h
    · exact perform_handle? hstep.left ho
    · obtain ⟨n, e, hn, he, hh⟩ := ih (hstep.moves.numbered hs) h
      rw [hstep.moves.session.entries] at he
      rw [Session.handle?_congr hstep.moves.session.addresses] at hh
      exact ⟨n, e, hn, he, hh⟩

/-- Loaders with hosts of their own do not interfere. Whatever the order of their steps, each
gets the outcomes that it gets alone, its host ends as it does alone, every function is called as
often as by all of them alone, and records that come from one function are equal. -/
theorem loaders_do_not_interfere [Fintype ι] (s : Session) (hosts : ι ↪ Nat)
    (scripts : ι → List LoaderStep) (schedule : List (ι × LoaderStep))
    (h : ∀ i, own i schedule = scripts i) :
    let all := (start s).run hosts schedule
    let solo := fun i => (start s).run hosts ((scripts i).map (Prod.mk i))
    all.1.map (fun event => (event.1, event.2.1)) = schedule ∧
    (∀ i, own i all.1 = own i (solo i).1 ∧
      all.2.session.hosts[hosts i]? = (solo i).2.session.hosts[hosts i]?) ∧
    (∀ k, ∃ made : ι → Nat, (∀ i, (solo i).2.session.calls k = s.calls k + made i) ∧
      all.2.session.calls k = s.calls k + ∑ i, made i) ∧
    ∀ event ∈ all.1, ∀ event' ∈ all.1, ∀ n n' a a',
      event.2.1.through? = some n → event'.2.1.through? = some n' →
      (s.entries[n]?.bind fun e => e.function?) = (s.entries[n']?.bind fun e => e.function?) →
      event.2.2.exports? = some a → event'.2.2.exports? = some a' → a = a' := by
  have hsolo : ∀ i, alone i schedule = (scripts i).map (Prod.mk i) := by
    intro i
    rw [alone, h i]
  refine ⟨steps_run hosts _ schedule, ?_, ?_, ?_⟩
  · intro i
    obtain ⟨hown, hagree⟩ := run_alone hosts i schedule (agree_start (hosts i) i s)
    rw [hsolo i] at hown hagree
    exact ⟨hown, hagree.alike.host⟩
  · intro k
    obtain ⟨made, hmade, hsum⟩ := calls_run hosts k schedule fun i => agree_start (hosts i) i s
    refine ⟨made, ?_, hsum⟩
    intro i
    have hi := hmade i
    rw [hsolo i] at hi
    exact hi
  · intro event he event' he' n n' a a' hn hn' hsame ha ha'
    have hnumbered : (start s : SharedSession ι).Numbered := by simp [Numbered, start]
    obtain ⟨m, e, hm, hentry, hh⟩ := run_handle? hosts schedule hnumbered he ha
    obtain ⟨m', e', hm', hentry', hh'⟩ := run_handle? hosts schedule hnumbered he' ha'
    obtain rfl := Option.some.inj (hn.symm.trans hm)
    obtain rfl := Option.some.inj (hn'.symm.trans hm')
    have hfunction : e.function? = e'.function? := by
      change s.entries[n]? = some e at hentry
      change s.entries[n']? = some e' at hentry'
      simpa [hentry, hentry'] using hsame
    have hhandle : a.handle = a'.handle := by
      rw [Session.handle?_eq, hfunction, ← Session.handle?_eq, hh'] at hh
      exact (Option.some.inj hh).symm
    cases a
    cases a'
    exact congrArg Exports.mk hhandle

/-- Two loaders share an entry: one registers twice, the other publishes what it has built. -/
theorem loaders_do_not_interfere_two :
    let s : Session := ⟨[⟨0x1000, 0⟩], [⟨"grammar", some 0⟩],
      [.slot (.new "first"), .slot (.new "second")], [], []⟩
    let scripts : Fin 2 → List LoaderStep := fun i =>
      if i = 0 then [.register 0 true, .register 0 true] else [.load 0 true, .publish 0]
    let schedule : List (Fin 2 × LoaderStep) :=
      [(1, .load 0 true), (0, .register 0 true), (0, .register 0 true), (1, .publish 0)]
    let all := (start s).run Fin.valEmbedding schedule
    let solo := fun i => (start s).run Fin.valEmbedding ((scripts i).map (Prod.mk i))
    (∀ i, own i schedule = scripts i) ∧
    (∀ i, own i all.1 = own i (solo i).1 ∧
      all.2.session.hosts[i.val]? = (solo i).2.session.hosts[i.val]?) ∧
    all.2.session.calls 0 = 3 := by
  intro s scripts schedule all solo
  have h : ∀ i, own i schedule = scripts i := by decide
  obtain ⟨-, hown, -, -⟩ := loaders_do_not_interfere s Fin.valEmbedding scripts schedule h
  exact ⟨h, hown, rfl⟩

end SharedSession
end GrammarModule
