import GrammarModule.Proofs.Loading
import GrammarModule.Session.Run
import Mathlib.Data.List.Basic

/-!
# GrammarModule.Proofs.Session.Effects

What asking an entry, and using a host, does to a session: an answer and the next session, in
closed form. Asking an entry counts a call and nothing else; a host answers questions without a
change, and a publication changes this one host.
-/

namespace GrammarModule

/-! ## Hosts -/

namespace SessionHost

def usable : SessionHost → Bool
  | .slot h => h.usable
  | .sink h => h.usable

def description : SessionHost → String
  | .slot h => h.description
  | .sink h => h.label

/-- The answer of the host to a publication, and the host after it. -/
def publish (exports : Exports) : SessionHost → Except Failure Unit × SessionHost
  | .slot h => ((SlotHost.publish exports).run h).map id .slot
  | .sink h => ((SinkHost.sink.publish exports).run h).map id .sink

end SessionHost

/-- One more call. -/
def LanguageFunction.count (f : LanguageFunction) : LanguageFunction :=
  { f with calls := f.calls + 1 }

namespace Session

variable {s : Session} {e : Entry} {i : Nat} {h : SessionHost}

/-- The session with another host under a number. -/
def withHost (s : Session) (i : Nat) (h : SessionHost) : Session :=
  { s with hosts := s.hosts.set i h }

theorem withHost_self (hh : s.hosts[i]? = some h) : s.withHost i h = s := by
  obtain ⟨hi, rfl⟩ := List.getElem?_eq_some_iff.1 hh
  rw [withHost, List.set_getElem_self]

theorem run_usable (hh : s.hosts[i]? = some h) : (host i).usable.run s = (h.usable, s) := by
  have hsame := withHost_self hh
  cases h <;> simp only [host, onHost, StateT.run, hh] <;> exact congrArg (Prod.mk _) hsame

theorem run_description (hh : s.hosts[i]? = some h) :
    (host i).description.run s = (h.description, s) := by
  have hsame := withHost_self hh
  cases h <;> simp only [host, onHost, StateT.run, hh] <;> exact congrArg (Prod.mk _) hsame

theorem run_publish (hh : s.hosts[i]? = some h) (exports : Exports) :
    ((host i).publish exports).run s =
      ((h.publish exports).1, s.withHost i (h.publish exports).2) := by
  cases h <;> simp only [host, onHost, StateT.run, hh] <;> rfl

/-! ## Entries -/

/-- The handle that the function of an entry gives, if there is one and it gives one. -/
def handle? (s : Session) (e : Entry) : Option Handle :=
  (e.function?.bind fun k => s.functions[k]?).bind fun f => Handle.ofAddress? f.address

/-- What an entry answers when it is asked for the handle. -/
def answer (s : Session) (e : Entry) : Except Failure Handle :=
  match s.handle? e with
  | none => .error (.unresolvedSymbol e.symbol)
  | some handle => .ok handle

/-- The session after an entry has been asked: its function has been called once more. -/
def called (s : Session) (e : Entry) : Session :=
  match e.function? with
  | none => s
  | some k => { s with functions := s.functions.modify k .count }

@[simp] theorem called_entries : (s.called e).entries = s.entries := by
  rw [called]
  split <;> rfl

@[simp] theorem called_hosts : (s.called e).hosts = s.hosts := by
  rw [called]
  split <;> rfl

@[simp] theorem called_records : (s.called e).records = s.records := by
  rw [called]
  split <;> rfl

@[simp] theorem called_slots : (s.called e).slots = s.slots := by
  rw [called]
  split <;> rfl

theorem run_call (s : Session) (k : Nat) :
    (call k).run s = (s.functions[k]?.bind fun f => Handle.ofAddress? f.address,
      { s with functions := s.functions.modify k .count }) := by
  rw [List.modify_eq_set_getElem?]
  cases hf : s.functions[k]? <;> simp only [call, StateT.run, hf] <;> rfl

theorem run_resolve (s : Session) (e : Entry) :
    (source e).resolve.run s = (s.answer e, s.called e) := by
  cases hk : e.function? with
  | none =>
    simp only [source, answer, handle?, called, hk]
    rfl
  | some k =>
    simp only [source, answer, handle?, called, hk]
    rw [run_bind_of_run (s.run_call k), Option.bind_some]
    cases s.functions[k]?.bind fun f => Handle.ofAddress? f.address <;> rfl

/-! ## Attempts -/

/-- What stops an attempt before the entry is asked: no host, or one that is not usable. -/
def obstacle? (s : Session) (host : Option Nat) : Option Failure :=
  match host.bind fun i => s.hosts[i]? with
  | none => some Source.hostMissing
  | some h => if h.usable then none else some (Source.hostUnusable h.description)

theorem target_eq_none {host : Option Nat} (hn : (host.bind fun i => s.hosts[i]?) = none) :
    s.target host = none := by
  cases host with
  | none => rfl
  | some i =>
    have hi := List.getElem?_eq_none_iff.1 hn
    rw [target, Option.bind_some, host?, if_neg (by omega)]

theorem target_eq_some (hh : s.hosts[i]? = some h) : s.target (some i) = some (host i) := by
  obtain ⟨hi, -⟩ := List.getElem?_eq_some_iff.1 hh
  rw [target, Option.bind_some, host?, if_pos hi]

theorem run_load_of_obstacle {host : Option Nat} {failure : Failure}
    (hf : s.obstacle? host = some failure) (e : Entry) :
    ((source e).load (s.target host)).run s = (.error failure, s) := by
  rw [obstacle?] at hf
  split at hf
  · next hn =>
    cases hf
    rw [target_eq_none hn]
    rfl
  · next h hh =>
    obtain ⟨i, rfl, hh⟩ := Option.bind_eq_some_iff.1 hh
    split at hf
    · cases hf
    · next hu =>
      cases hf
      have hunusable := run_usable hh
      rw [Bool.not_eq_true] at hu
      rw [hu] at hunusable
      rw [target_eq_some hh]
      exact Source.run_load_unusable _ _ hunusable (run_description hh)

theorem run_load_of_usable (hh : s.hosts[i]? = some h) (hu : h.usable = true) (e : Entry) :
    ((source e).load (s.target (some i))).run s = ((s.answer e).map Exports.mk, s.called e) := by
  have husable := run_usable hh
  rw [hu] at husable
  rw [target_eq_some hh]
  exact Source.run_load_usable _ _ husable (s.run_resolve e)

theorem run_register_of_obstacle {host : Option Nat} {failure : Failure}
    (hf : s.obstacle? host = some failure) (e : Entry) :
    ((source e).register (s.target host)).run s = (.error failure, s) := by
  have hload := run_load_of_obstacle hf e
  cases ht : s.target host with
  | none =>
    rw [ht] at hload
    exact hload
  | some host =>
    rw [ht] at hload
    exact Source.run_register_of_error _ _ hload

theorem run_register_of_error {failure : Failure} (hh : s.hosts[i]? = some h)
    (hu : h.usable = true) (ha : s.answer e = .error failure) :
    ((source e).register (s.target (some i))).run s = (.error failure, s.called e) := by
  have hload := run_load_of_usable hh hu e
  rw [ha, target_eq_some hh] at hload
  rw [target_eq_some hh]
  exact Source.run_register_of_error _ _ hload

theorem run_register_of_ok {handle : Handle} (hh : s.hosts[i]? = some h) (hu : h.usable = true)
    (ha : s.answer e = .ok handle) :
    ((source e).register (s.target (some i))).run s =
      ((h.publish ⟨handle⟩).1.map fun _ => ⟨handle⟩,
        (s.called e).withHost i (h.publish ⟨handle⟩).2) := by
  have hload := run_load_of_usable hh hu e
  rw [ha, target_eq_some hh] at hload
  rw [target_eq_some hh]
  have hcalled : (s.called e).hosts[i]? = some h := by rw [called_hosts, hh]
  exact Source.run_register_of_ok _ _ hload (run_publish hcalled ⟨handle⟩)

end Session
end GrammarModule
