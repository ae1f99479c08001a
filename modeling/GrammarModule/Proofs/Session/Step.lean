import GrammarModule.Proofs.Session.Effects

/-!
# GrammarModule.Proofs.Session.Step

Everything that one operation can do to a session, one constructor for each way that it can go.
`perform_step`: this is what `perform` does. Facts about all runs go by cases on a step.
-/

namespace GrammarModule
namespace Session

/-- The session with the record that an operation gave, if it gave one. -/
def keeping (s : Session) : Except Failure Exports → Session
  | .ok exports => { s with records := s.records ++ [exports] }
  | .error _ => s

@[simp] theorem keeping_hosts (s : Session) (result : Except Failure Exports) :
    (s.keeping result).hosts = s.hosts := by cases result <;> rfl

@[simp] theorem keeping_slots (s : Session) (result : Except Failure Exports) :
    (s.keeping result).slots = s.slots := by cases result <;> rfl

theorem run_keep (s : Session) (result : Except Failure Exports) :
    (keep result).run s = (.record result, s.keeping result) := by
  cases result <;> rfl

/-- What an operation works on does not exist. -/
def Lacks (s : Session) : Operation → Prop
  | .resolve n | .load n _ | .register n _ | .copyEntry n => s.entries[n]? = none
  | .publish i k => s.hosts[i]? = none ∨ s.records[k]? = none
  | .cloneHost i => s.hosts[i]? = none
  | .compare a b => s.records[a]? = none ∨ s.records[b]? = none
  | .copySlot j => s.slots[j]? = none
  | .fillSlot j k => s.slots[j]? = none ∨ s.records[k]? = none
  | .compareSlots a b => s.slots[a]? = none ∨ s.slots[b]? = none
  | .setAddress .. | .setRefusal .. | .setUsable .. | .newSlot | .inspect => False

/-- A setting for which the session has nothing that could be set. -/
def Ignores (s : Session) : Operation → Prop
  | .setAddress n _ => (s.entries[n]?.bind fun e => e.function?) = none
  | .setRefusal i _ | .setUsable i _ => ∀ h, s.hosts[i]? ≠ some (.sink h)
  | _ => False

inductive Step (s : Session) : Operation → Outcome → Session → Prop
  | absent {op : Operation} (hl : s.Lacks op) : Step s op .absent s
  | resolve {n : Nat} {e : Entry} (he : s.entries[n]? = some e) :
      Step s (.resolve n) (.resolved e (s.answer e)) (s.called e)
  /-- The host is missing or unusable, and the entry is not asked. -/
  | loadRefused {n : Nat} {e : Entry} {host : Option Nat} {failure : Failure}
      (he : s.entries[n]? = some e) (hf : s.obstacle? host = some failure) :
      Step s (.load n host) (.record (.error failure)) s
  | load {n i : Nat} {e : Entry} {h : SessionHost} (he : s.entries[n]? = some e)
      (hh : s.hosts[i]? = some h) (hu : h.usable = true) :
      Step s (.load n (some i)) (.record ((s.answer e).map Exports.mk))
        ((s.called e).keeping ((s.answer e).map Exports.mk))
  /-- The host is missing or unusable, and the entry is not asked. -/
  | registerRefused {n : Nat} {e : Entry} {host : Option Nat} {failure : Failure}
      (he : s.entries[n]? = some e) (hf : s.obstacle? host = some failure) :
      Step s (.register n host) (.record (.error failure)) s
  /-- The entry has no handle to give, and nothing is published. -/
  | registerUnresolved {n i : Nat} {e : Entry} {h : SessionHost} {failure : Failure}
      (he : s.entries[n]? = some e) (hh : s.hosts[i]? = some h) (hu : h.usable = true)
      (ha : s.answer e = .error failure) :
      Step s (.register n (some i)) (.record (.error failure)) (s.called e)
  | register {n i : Nat} {e : Entry} {h h' : SessionHost} {handle : Handle}
      {answer : Except Failure Unit} (he : s.entries[n]? = some e)
      (hh : s.hosts[i]? = some h) (hu : h.usable = true) (ha : s.answer e = .ok handle)
      (hp : h.publish ⟨handle⟩ = (answer, h')) :
      Step s (.register n (some i)) (.record (answer.map fun _ => ⟨handle⟩))
        (((s.called e).withHost i h').keeping (answer.map fun _ => ⟨handle⟩))
  | publish {i k : Nat} {h h' : SessionHost} {exports : Exports} {answer : Except Failure Unit}
      (hh : s.hosts[i]? = some h) (hk : s.records[k]? = some exports)
      (hp : h.publish exports = (answer, h')) :
      Step s (.publish i k) (.published answer) (s.withHost i h')
  | cloneHost {i : Nat} {h : SessionHost} (hh : s.hosts[i]? = some h) :
      Step s (.cloneHost i) (.number s.hosts.length) { s with hosts := s.hosts ++ [h] }
  | copyEntry {n : Nat} {e : Entry} (he : s.entries[n]? = some e) :
      Step s (.copyEntry n) (.number s.entries.length) { s with entries := s.entries ++ [e] }
  | ignored {op : Operation} (hi : s.Ignores op) : Step s op .nothing s
  | setAddress {n k : Nat} {address : UInt64}
      (hk : (s.entries[n]?.bind fun e => e.function?) = some k) :
      Step s (.setAddress n address) .nothing
        { s with functions := s.functions.modify k fun f => { f with address } }
  | setRefusal {i : Nat} {h : SinkHost} {refusal : Option Refusal}
      (hh : s.hosts[i]? = some (.sink h)) :
      Step s (.setRefusal i refusal) .nothing (s.withHost i (.sink { h with refusal }))
  | setUsable {i : Nat} {h : SinkHost} {usable : Bool} (hh : s.hosts[i]? = some (.sink h)) :
      Step s (.setUsable i usable) .nothing (s.withHost i (.sink { h with usable }))
  | compare {a b : Nat} {x y : Exports} (ha : s.records[a]? = some x)
      (hb : s.records[b]? = some y) : Step s (.compare a b) (.compared (x.compare y)) s
  | newSlot : Step s .newSlot (.number s.slots.length) { s with slots := s.slots ++ [.empty] }
  | copySlot {j : Nat} {c : Slot} (hj : s.slots[j]? = some c) :
      Step s (.copySlot j) (.number s.slots.length) { s with slots := s.slots ++ [c] }
  | fillSlot {j k : Nat} {c c' : Slot} {exports : Exports} (hj : s.slots[j]? = some c)
      (hk : s.records[k]? = some exports) (hf : c.fill exports = .ok c') :
      Step s (.fillSlot j k) (.published (.ok ())) { s with slots := s.slots.set j c' }
  | fillSlotRefused {j k : Nat} {c : Slot} {exports : Exports} {failure : Failure}
      (hj : s.slots[j]? = some c) (hk : s.records[k]? = some exports)
      (hf : c.fill exports = .error failure) :
      Step s (.fillSlot j k) (.published (.error failure)) s
  | compareSlots {a b : Nat} {x y : Slot} (ha : s.slots[a]? = some x)
      (hb : s.slots[b]? = some y) : Step s (.compareSlots a b) (.equal (x = y)) s
  | inspect : Step s .inspect .nothing s

/-! ## Every operation is a step -/

section

variable {s t : Session} {op : Operation} {o : Outcome} {n i : Nat} {e : Entry}
  {chosen : Option Nat}

theorem obstacle_or_usable (s : Session) (host : Option Nat) :
    (∃ failure, s.obstacle? host = some failure) ∨
      ∃ i h, host = some i ∧ s.hosts[i]? = some h ∧ h.usable = true := by
  cases hb : host.bind fun i => s.hosts[i]? with
  | none =>
    left
    exact ⟨_, by rw [obstacle?, hb]⟩
  | some h =>
    obtain ⟨i, hi, hh⟩ := Option.bind_eq_some_iff.1 hb
    by_cases hu : h.usable = true
    · right
      exact ⟨i, h, hi, hh, hu⟩
    · left
      exact ⟨_, by rw [obstacle?, hb]; exact if_neg hu⟩

theorem load_step (he : s.entries[n]? = some e)
    (h : ((source e).load (s.target chosen) >>= keep).run s = (o, t)) :
    Step s (.load n chosen) o t := by
  rcases s.obstacle_or_usable chosen with ⟨failure, hf⟩ | ⟨i, x, rfl, hh, hu⟩
  · rw [run_bind_of_run (run_load_of_obstacle hf e), run_keep] at h
    cases h
    exact .loadRefused he hf
  · rw [run_bind_of_run (run_load_of_usable hh hu e), run_keep] at h
    cases h
    exact .load he hh hu

theorem register_step (he : s.entries[n]? = some e)
    (h : ((source e).register (s.target chosen) >>= keep).run s = (o, t)) :
    Step s (.register n chosen) o t := by
  rcases s.obstacle_or_usable chosen with ⟨failure, hf⟩ | ⟨i, x, rfl, hh, hu⟩
  · rw [run_bind_of_run (run_register_of_obstacle hf e), run_keep] at h
    cases h
    exact .registerRefused he hf
  · cases ha : s.answer e with
    | error failure =>
      rw [run_bind_of_run (run_register_of_error hh hu ha), run_keep] at h
      cases h
      exact .registerUnresolved he hh hu ha
    | ok handle =>
      rw [run_bind_of_run (run_register_of_ok hh hu ha), run_keep] at h
      cases h
      exact .register he hh hu ha rfl

theorem publish_step {i k : Nat} {exports : Exports} (hi : i < s.hosts.length)
    (hk : s.records[k]? = some exports)
    (h : ((host i).publish exports >>= fun answer => pure (.published answer)).run s = (o, t)) :
    Step s (.publish i k) o t := by
  have hh := List.getElem?_eq_getElem hi
  rw [run_bind_of_run (run_publish hh exports)] at h
  cases h
  exact .publish hh hk rfl

theorem modifySink_step {change : SinkHost → SinkHost}
    (h : (modifySink i change).run s = (o, t))
    (hset : ∀ sink, s.hosts[i]? = some (.sink sink) →
      Step s op .nothing (s.withHost i (.sink (change sink))))
    (hi : (∀ sink, s.hosts[i]? ≠ some (.sink sink)) → s.Ignores op) : Step s op o t := by
  simp only [modifySink, StateT.run] at h
  split at h
  · next sink hh =>
    cases h
    exact hset sink hh
  · next hne =>
    cases h
    exact .ignored (hi hne)

theorem perform_step (h : (perform op).run s = (o, t)) : Step s op o t := by
  have hget : (get : StateM Session Session).run s = (s, s) := rfl
  rw [perform, run_bind_of_run hget] at h
  cases op with
  | resolve n =>
    cases he : s.entries[n]? with
    | none =>
      simp only [he] at h
      cases h
      exact .absent he
    | some e =>
      simp only [he] at h
      rw [run_bind_of_run (s.run_resolve e)] at h
      cases h
      exact .resolve he
  | load n host =>
    cases he : s.entries[n]? with
    | none =>
      simp only [he] at h
      cases h
      exact .absent he
    | some e =>
      simp only [he] at h
      exact load_step he h
  | register n host =>
    cases he : s.entries[n]? with
    | none =>
      simp only [he] at h
      cases h
      exact .absent he
    | some e =>
      simp only [he] at h
      exact register_step he h
  | publish i k =>
    by_cases hi : i < s.hosts.length
    · cases hk : s.records[k]? with
      | none =>
        simp only [host?, if_pos hi, hk] at h
        cases h
        exact .absent (.inr hk)
      | some exports =>
        simp only [host?, if_pos hi, hk] at h
        exact publish_step hi hk h
    · simp only [host?, if_neg hi] at h
      cases h
      exact .absent (.inl (List.getElem?_eq_none_iff.2 (by omega)))
  | cloneHost i =>
    cases hh : s.hosts[i]? with
    | none =>
      simp only [hh] at h
      cases h
      exact .absent hh
    | some x =>
      simp only [hh] at h
      cases h
      exact .cloneHost hh
  | copyEntry n =>
    cases he : s.entries[n]? with
    | none =>
      simp only [he] at h
      cases h
      exact .absent he
    | some e =>
      simp only [he] at h
      cases h
      exact .copyEntry he
  | setAddress n address =>
    cases hk : s.entries[n]?.bind (·.function?) with
    | none =>
      simp only [hk] at h
      cases h
      exact .ignored hk
    | some k =>
      simp only [hk] at h
      cases h
      exact .setAddress hk
  | setRefusal i refusal => exact modifySink_step h (fun _ hh => .setRefusal hh) id
  | setUsable i usable => exact modifySink_step h (fun _ hh => .setUsable hh) id
  | compare a b =>
    cases ha : s.records[a]? with
    | none =>
      simp only [ha] at h
      cases h
      exact .absent (.inl ha)
    | some x =>
      cases hb : s.records[b]? with
      | none =>
        simp only [ha, hb] at h
        cases h
        exact .absent (.inr hb)
      | some y =>
        simp only [ha, hb] at h
        cases h
        exact .compare ha hb
  | newSlot =>
    cases h
    exact .newSlot
  | copySlot j =>
    cases hj : s.slots[j]? with
    | none =>
      simp only [hj] at h
      cases h
      exact .absent hj
    | some c =>
      simp only [hj] at h
      cases h
      exact .copySlot hj
  | fillSlot j k =>
    cases hj : s.slots[j]? with
    | none =>
      simp only [hj] at h
      cases h
      exact .absent (.inl hj)
    | some c =>
      cases hk : s.records[k]? with
      | none =>
        simp only [hj, hk] at h
        cases h
        exact .absent (.inr hk)
      | some exports =>
        cases hf : c.fill exports with
        | error failure =>
          simp only [hj, hk, hf] at h
          cases h
          exact .fillSlotRefused hj hk hf
        | ok c' =>
          simp only [hj, hk, hf] at h
          cases h
          exact .fillSlot hj hk hf
  | compareSlots a b =>
    cases ha : s.slots[a]? with
    | none =>
      simp only [ha] at h
      cases h
      exact .absent (.inl ha)
    | some x =>
      cases hb : s.slots[b]? with
      | none =>
        simp only [ha, hb] at h
        cases h
        exact .absent (.inr hb)
      | some y =>
        simp only [ha, hb] at h
        cases h
        exact .compareSlots ha hb
  | inspect =>
    cases h
    exact .inspect

end

/-! ## Steps that get as far as a host -/

section

variable {s t : Session} {o : Outcome} {n i k : Nat} {e : Entry} {h : SessionHost}
  {handle : Handle} {exports : Exports}

theorem obstacle?_of_usable (hh : s.hosts[i]? = some h) (hu : h.usable = true) :
    s.obstacle? (some i) = none := by
  rw [obstacle?, Option.bind_some, hh]
  exact if_pos hu

theorem Step.of_register (hs : Step s (.register n (some i)) o t) (he : s.entries[n]? = some e)
    (hh : s.hosts[i]? = some h) (hu : h.usable = true) (ha : s.answer e = .ok handle) :
    o = .record ((h.publish ⟨handle⟩).1.map fun _ => ⟨handle⟩) ∧
      t = ((s.called e).withHost i (h.publish ⟨handle⟩).2).keeping
        ((h.publish ⟨handle⟩).1.map fun _ => ⟨handle⟩) := by
  cases hs with
  | absent hl =>
    rw [Lacks, he] at hl
    cases hl
  | ignored hi => exact hi.elim
  | registerRefused _ hf =>
    rw [obstacle?_of_usable hh hu] at hf
    cases hf
  | registerUnresolved he' _ _ ha' =>
    rw [he] at he'
    cases he'
    rw [ha] at ha'
    cases ha'
  | register he' hh' _ ha' hp =>
    rw [he] at he'
    cases he'
    rw [ha] at ha'
    cases ha'
    rw [hh] at hh'
    cases hh'
    rw [hp]
    exact ⟨rfl, rfl⟩

theorem Step.of_publish (hs : Step s (.publish i k) o t) (hh : s.hosts[i]? = some h)
    (hk : s.records[k]? = some exports) :
    o = .published (h.publish exports).1 ∧ t = s.withHost i (h.publish exports).2 := by
  cases hs with
  | absent hl =>
    rw [Lacks, hh, hk] at hl
    rcases hl with hl | hl <;> cases hl
  | ignored hi => exact hi.elim
  | publish hh' hk' hp =>
    rw [hh] at hh'
    cases hh'
    rw [hk] at hk'
    cases hk'
    rw [hp]
    exact ⟨rfl, rfl⟩

/-! ## Copies -/

theorem Step.of_cloneHost (hs : Step s (.cloneHost i) o t) (hh : s.hosts[i]? = some h) :
    t = { s with hosts := s.hosts ++ [h] } := by
  cases hs with
  | absent hl =>
    rw [Lacks, hh] at hl
    cases hl
  | ignored hi => exact hi.elim
  | cloneHost hh' =>
    rw [hh] at hh'
    cases hh'
    rfl

theorem Step.of_copyEntry (hs : Step s (.copyEntry n) o t) (he : s.entries[n]? = some e) :
    t = { s with entries := s.entries ++ [e] } := by
  cases hs with
  | absent hl =>
    rw [Lacks, he] at hl
    cases hl
  | ignored hi => exact hi.elim
  | copyEntry he' =>
    rw [he] at he'
    cases he'
    rfl

end

/-! ## Runs -/

/-- The session after the first `n` operations of a run. -/
def after (s : Session) (ops : List Operation) (n : Nat) : Session :=
  (ops.take n).foldl (fun s op => ((perform op).run s).2) s

theorem after_cons_succ (s : Session) (op : Operation) (ops : List Operation) (n : Nat) :
    s.after (op :: ops) (n + 1) = ((perform op).run s).2.after ops n := rfl

/-- Each outcome of a run is that of its operation, in the session that the earlier ones left. -/
theorem getElem?_run (s : Session) (ops : List Operation) (n : Nat) :
    (s.run ops)[n]? = ops[n]?.map fun op => (perform op).run (s.after ops n) := by
  induction ops generalizing s n with
  | nil => rfl
  | cons op ops ih =>
    cases n with
    | zero => rfl
    | succ n =>
      rw [List.getElem?_cons_succ, after_cons_succ]
      exact ih ((perform op).run s).2 n

theorem after_succ {s : Session} {ops : List Operation} {n : Nat} {op : Operation}
    (h : ops[n]? = some op) :
    s.after ops (n + 1) = ((perform op).run (s.after ops n)).2 := by
  rw [after, after, List.take_add_one, h, List.foldl_append]
  rfl

theorem after_succ_of_none {s : Session} {ops : List Operation} {n : Nat} (h : ops[n]? = none) :
    s.after ops (n + 1) = s.after ops n := by
  rw [after, after, List.take_add_one, h, Option.toList_none, List.append_nil]

/-- An operation of a run is a step from the session that the earlier ones left. -/
theorem step_after {s : Session} {ops : List Operation} {n : Nat} {op : Operation}
    (hop : ops[n]? = some op) : ∃ o, (s.run ops)[n]? = some (o, s.after ops (n + 1)) ∧
      Step (s.after ops n) op o (s.after ops (n + 1)) := by
  refine ⟨((perform op).run (s.after ops n)).1, ?_, perform_step ?_⟩
  · rw [getElem?_run, hop, after_succ hop]
    rfl
  · exact congrArg (Prod.mk _) (after_succ hop).symm

/-- What every step of a run preserves lasts from any point of the run on. -/
theorem lasts_after {s : Session} {ops : List Operation} {m n : Nat} {P : Session → Prop}
    (hm : m ≤ n) (h : P (s.after ops m))
    (hstep : ∀ k op o, ops[k]? = some op → Step (s.after ops k) op o (s.after ops (k + 1)) →
      P (s.after ops k) → P (s.after ops (k + 1))) : P (s.after ops n) := by
  induction hm with
  | refl => exact h
  | @step n hle ih =>
    cases hop : ops[n]? with
    | none =>
      rw [after_succ_of_none hop]
      exact ih
    | some op =>
      obtain ⟨o, -, hs⟩ := step_after (s := s) hop
      exact hstep n op o hop hs ih

end Session
end GrammarModule
