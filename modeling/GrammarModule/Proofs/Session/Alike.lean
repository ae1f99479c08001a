import GrammarModule.Proofs.Session.Step

/-!
# GrammarModule.Proofs.Session.Alike

Two sessions that the owner of a host cannot tell apart: the same entries, the same addresses, the
same host. How often a function has been called, and what records there are, may differ. The
operations of a loader on that host have one outcome in both and leave them alike (`Alike.load`,
`Alike.register`, `Alike.publish`). To everything else each does what it does in the other: it adds
calls and at most the record that it gives (`Advance`).
-/

namespace GrammarModule

/-- The exports that an operation returned. -/
def Outcome.exports? : Outcome → Option Exports
  | .record (.ok exports) => some exports
  | _ => none

/-- The entry that an operation builds exports through. -/
def Operation.through? : Operation → Option Nat
  | .load entry _ | .register entry _ => some entry
  | _ => none

namespace Session

variable {s s' t t' : Session} {i n : Nat} {e : Entry} {chosen : Option Nat}

/-- How often a function has been called. -/
def calls (s : Session) (k : Nat) : Nat := (s.functions[k]?.map (·.calls)).getD 0

/-- What the owner of a host can tell of a session, its records apart. -/
structure Alike (i : Nat) (s t : Session) : Prop where
  entries : s.entries = t.entries
  addresses : s.functions.map (·.address) = t.functions.map (·.address)
  host : s.hosts[i]? = t.hosts[i]?

theorem Alike.refl (i : Nat) (s : Session) : Alike i s s := ⟨rfl, rfl, rfl⟩

theorem handle?_eq (s : Session) (e : Entry) : s.handle? e =
    (e.function?.bind fun k => (s.functions.map (·.address))[k]?).bind Handle.ofAddress? := by
  cases hk : e.function? with
  | none => simp [handle?, hk]
  | some k =>
    cases hf : s.functions[k]? <;> simp [handle?, hk, hf]

theorem handle?_congr (h : s.functions.map (·.address) = t.functions.map (·.address)) (e : Entry) :
    s.handle? e = t.handle? e := by
  rw [handle?_eq, handle?_eq, h]

theorem Alike.answer (h : Alike i s t) (e : Entry) : s.answer e = t.answer e := by
  rw [Session.answer, Session.answer, handle?_congr h.addresses]

/-- What the step of a loader does to a session, its own host apart: it adds the record that it
gives, and calls. -/
structure Advance (i : Nat) (s s' : Session) (new : List Exports) (asked : Nat → Nat) : Prop where
  entries : s'.entries = s.entries
  addresses : s'.functions.map (·.address) = s.functions.map (·.address)
  others : ∀ j ≠ i, s'.hosts[j]? = s.hosts[j]?
  records : s'.records = s.records ++ new
  calls : ∀ k, s'.calls k = s.calls k + asked k

/-- Two sessions take a step alike. -/
structure Together (i : Nat) (s t s' t' : Session) (new : List Exports) : Prop where
  host : s'.hosts[i]? = t'.hosts[i]?
  advance : ∃ asked, Advance i s s' new asked ∧ Advance i t t' new asked

theorem Alike.together (h : Alike i s t) : Together i s t s t [] where
  host := h.host
  advance := by
    refine ⟨fun _ => 0, ?_, ?_⟩ <;> exact ⟨rfl, rfl, fun _ _ => rfl, by simp, fun _ => rfl⟩

theorem calls_called (s : Session) (e : Entry) (k : Nat) : (s.called e).calls k =
    s.calls k + if e.function? = some k ∧ k < s.functions.length then 1 else 0 := by
  cases hf : e.function? with
  | none => simp [called, hf]
  | some k' =>
    simp only [called, hf, calls, List.getElem?_modify, Option.some.injEq]
    by_cases hk : k' = k
    · subst hk
      by_cases hlt : k' < s.functions.length
      · simp [hlt, LanguageFunction.count]
      · simp [hlt]
    · simp [hk]

theorem addresses_called (s : Session) (e : Entry) :
    (s.called e).functions.map (·.address) = s.functions.map (·.address) := by
  cases hf : e.function? with
  | none => simp [called, hf]
  | some k =>
    apply List.ext_getElem?
    intro j
    by_cases hj : k = j
    · subst hj
      cases hs : s.functions[k]? <;> simp [called, hf, hs, LanguageFunction.count]
    · simp [called, hf, hj]

/-- Asking an entry is alike in both sessions: they have as many functions. -/
theorem Alike.together_called (h : Alike i s t) (e : Entry) :
    Together i s t (s.called e) (t.called e) [] where
  host := by rw [called_hosts, called_hosts, h.host]
  advance := by
    have hlen : s.functions.length = t.functions.length := by
      simpa using congrArg List.length h.addresses
    refine ⟨fun k => if e.function? = some k ∧ k < s.functions.length then 1 else 0, ?_, ?_⟩
    · exact ⟨called_entries, addresses_called s e, by simp, by simp, calls_called s e⟩
    · rw [hlen]
      exact ⟨called_entries, addresses_called t e, by simp, by simp, calls_called t e⟩

theorem Advance.withHost {new : List Exports} {asked : Nat → Nat} (h : Advance i s s' new asked)
    (x : SessionHost) : Advance i s (s'.withHost i x) new asked where
  entries := h.entries
  addresses := h.addresses
  others j hj := by rw [Session.withHost, List.getElem?_set_ne hj.symm, h.others j hj]
  records := h.records
  calls := h.calls

theorem Together.withHost {new : List Exports} (h : Together i s t s' t' new)
    {y : SessionHost} (hs : s'.hosts[i]? = some y) (x : SessionHost) :
    Together i s t (s'.withHost i x) (t'.withHost i x) new where
  host := by
    obtain ⟨hi, -⟩ := List.getElem?_eq_some_iff.1 hs
    obtain ⟨hi', -⟩ := List.getElem?_eq_some_iff.1 (h.host.symm.trans hs)
    rw [Session.withHost, Session.withHost, List.getElem?_set_self hi, List.getElem?_set_self hi']
  advance := by
    obtain ⟨asked, ha, hb⟩ := h.advance
    exact ⟨asked, ha.withHost x, hb.withHost x⟩

theorem Advance.keeping {asked : Nat → Nat} (h : Advance i s s' [] asked)
    (result : Except Failure Exports) :
    Advance i s (s'.keeping result) (Outcome.record result).exports?.toList asked := by
  cases result with
  | error failure => exact h
  | ok exports =>
    refine ⟨h.entries, h.addresses, h.others, ?_, h.calls⟩
    simp [Session.keeping, Outcome.exports?, h.records]

theorem Together.keeping (h : Together i s t s' t' []) (result : Except Failure Exports) :
    Together i s t (s'.keeping result) (t'.keeping result)
      (Outcome.record result).exports?.toList where
  host := by rw [keeping_hosts, keeping_hosts, h.host]
  advance := by
    obtain ⟨asked, ha, hb⟩ := h.advance
    exact ⟨asked, ha.keeping result, hb.keeping result⟩

theorem Alike.obstacle? (h : Alike i s t) (hc : ∀ j ∈ chosen, j = i) :
    s.obstacle? chosen = t.obstacle? chosen := by
  cases chosen with
  | none => rfl
  | some j =>
    obtain rfl := hc j rfl
    rw [Session.obstacle?, Session.obstacle?, Option.bind_some, Option.bind_some, h.host]

/-! ## The operations of loaders -/

/-- An operation goes alike in two sessions, with one outcome. -/
def PerformsAlike (i : Nat) (s t : Session) (op op' : Operation) : Prop :=
  ∃ o s' t', (perform op).run s = (o, s') ∧ (perform op').run t = (o, t') ∧
    Together i s t s' t' o.exports?.toList

theorem run_get_bind {α : Type} (f : Session → StateM Session α) (s : Session) :
    ((get : StateM Session Session) >>= f).run s = (f s).run s := rfl

theorem run_perform_load (he : s.entries[n]? = some e) {r : Except Failure Exports}
    (h : ((source e).load (s.target chosen)).run s = (r, s')) :
    (perform (.load n chosen)).run s = (.record r, s'.keeping r) := by
  rw [perform, run_get_bind]
  simp only [he]
  rw [run_bind_of_run h, run_keep]

theorem run_perform_register (he : s.entries[n]? = some e) {r : Except Failure Exports}
    (h : ((source e).register (s.target chosen)).run s = (r, s')) :
    (perform (.register n chosen)).run s = (.record r, s'.keeping r) := by
  rw [perform, run_get_bind]
  simp only [he]
  rw [run_bind_of_run h, run_keep]

/-- Two attempts with one result are kept alike. -/
theorem Together.performs {op op' : Operation} {r : Except Failure Exports}
    (h : Together i s t s' t' []) (hs : (perform op).run s = (.record r, s'.keeping r))
    (ht : (perform op').run t = (.record r, t'.keeping r)) : PerformsAlike i s t op op' :=
  ⟨_, _, _, hs, ht, h.keeping r⟩

theorem Alike.performs_absent (h : Alike i s t) {op op' : Operation}
    (hs : (perform op).run s = (.absent, s)) (ht : (perform op').run t = (.absent, t)) :
    PerformsAlike i s t op op' :=
  ⟨_, _, _, hs, ht, h.together⟩

theorem run_perform_load_none (he : s.entries[n]? = none) :
    (perform (.load n chosen)).run s = (.absent, s) := by
  rw [perform, run_get_bind]
  simp only [he]
  rfl

theorem run_perform_register_none (he : s.entries[n]? = none) :
    (perform (.register n chosen)).run s = (.absent, s) := by
  rw [perform, run_get_bind]
  simp only [he]
  rfl

theorem Alike.load (h : Alike i s t) (hc : ∀ j ∈ chosen, j = i) (n : Nat) :
    PerformsAlike i s t (.load n chosen) (.load n chosen) := by
  cases he : s.entries[n]? with
  | none =>
    exact h.performs_absent (run_perform_load_none he) (run_perform_load_none (h.entries ▸ he))
  | some e =>
    have he' : t.entries[n]? = some e := by rw [← h.entries, he]
    rcases s.obstacle_or_usable chosen with ⟨failure, hf⟩ | ⟨j, x, rfl, hx, hu⟩
    · have hf' := (h.obstacle? hc).symm.trans hf
      exact h.together.performs (run_perform_load he (run_load_of_obstacle hf e))
        (run_perform_load he' (run_load_of_obstacle hf' e))
    · obtain rfl := hc j rfl
      have hload := run_load_of_usable (h.host.symm.trans hx) hu e
      rw [← h.answer] at hload
      exact (h.together_called e).performs (run_perform_load he (run_load_of_usable hx hu e))
        (run_perform_load he' hload)

theorem Alike.register (h : Alike i s t) (hc : ∀ j ∈ chosen, j = i) (n : Nat) :
    PerformsAlike i s t (.register n chosen) (.register n chosen) := by
  cases he : s.entries[n]? with
  | none =>
    exact h.performs_absent (run_perform_register_none he)
      (run_perform_register_none (h.entries ▸ he))
  | some e =>
    have he' : t.entries[n]? = some e := by rw [← h.entries, he]
    rcases s.obstacle_or_usable chosen with ⟨failure, hf⟩ | ⟨j, x, rfl, hx, hu⟩
    · have hf' := (h.obstacle? hc).symm.trans hf
      exact h.together.performs (run_perform_register he (run_register_of_obstacle hf e))
        (run_perform_register he' (run_register_of_obstacle hf' e))
    · obtain rfl := hc j rfl
      have hx' := h.host.symm.trans hx
      cases ha : s.answer e with
      | error failure =>
        have ha' := (h.answer e).symm.trans ha
        exact (h.together_called e).performs
          (run_perform_register he (run_register_of_error hx hu ha))
          (run_perform_register he' (run_register_of_error hx' hu ha'))
      | ok handle =>
        have ha' := (h.answer e).symm.trans ha
        have hcalled : (s.called e).hosts[j]? = some x := by rw [called_hosts, hx]
        exact ((h.together_called e).withHost hcalled _).performs
          (run_perform_register he (run_register_of_ok hx hu ha))
          (run_perform_register he' (run_register_of_ok hx' hu ha'))

theorem run_perform_publish {k : Nat} {exports : Exports} {x : SessionHost}
    (hx : s.hosts[i]? = some x) (hk : s.records[k]? = some exports) :
    (perform (.publish i k)).run s =
      (.published (x.publish exports).1, s.withHost i (x.publish exports).2) := by
  obtain ⟨hi, -⟩ := List.getElem?_eq_some_iff.1 hx
  rw [perform, run_get_bind]
  simp only [host?, if_pos hi, hk]
  rw [run_bind_of_run (run_publish hx exports)]
  rfl

theorem run_perform_publish_none {k : Nat} (hi : s.hosts[i]? = none) :
    (perform (.publish i k)).run s = (.absent, s) := by
  rw [List.getElem?_eq_none_iff] at hi
  rw [perform, run_get_bind]
  simp only [host?, if_neg (Nat.not_lt.2 hi)]
  rfl

/-- The same record may stand under another number. -/
theorem Alike.publish (h : Alike i s t) {k k' : Nat} {exports : Exports}
    (hk : s.records[k]? = some exports) (hk' : t.records[k']? = some exports) :
    PerformsAlike i s t (.publish i k) (.publish i k') := by
  cases hx : s.hosts[i]? with
  | none =>
    exact h.performs_absent (run_perform_publish_none hx)
      (run_perform_publish_none (h.host.symm.trans hx))
  | some x =>
    exact ⟨_, _, _, run_perform_publish hx hk, run_perform_publish (h.host.symm.trans hx) hk',
      h.together.withHost hx _⟩

/-- A record comes from the function of an entry, and has the address that this gives. -/
theorem Step.handle?_of_exports {op : Operation} {o : Outcome} {exports : Exports}
    (h : Step s op o t) (ho : o.exports? = some exports) :
    ∃ n e, op.through? = some n ∧ s.entries[n]? = some e ∧ s.handle? e = some exports.handle := by
  cases h with
  | @load n i e h he =>
    refine ⟨n, e, rfl, he, ?_⟩
    rw [Session.answer] at ho
    cases hh : s.handle? e <;> rw [hh] at ho <;> cases ho
    rfl
  | @register n i e h h' handle answer he _ _ ha =>
    refine ⟨n, e, rfl, he, ?_⟩
    rw [Session.answer] at ha
    cases hh : s.handle? e <;> rw [hh] at ha <;> cases ha
    cases answer <;> cases ho
    rfl
  | _ => cases ho

end Session
end GrammarModule
