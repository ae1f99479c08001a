import GrammarModule.Proofs.Session.Alike
import GrammarModule.Proofs.Session.OneShot

/-!
# GrammarModule.Proofs.Session.Calls

How often the functions of a session are called. A step calls the function behind an entry once
when it resolves the entry, and when it loads or registers through it for a host that is there and
usable; whatever comes of it, nothing else is called (`Step.calls`). So the calls of a run are the
number of such steps: `calls_match_requests`.
-/

namespace GrammarModule

/-- The entry that an operation may ask for the handle. -/
def Operation.entry? : Operation → Option Nat
  | .resolve entry | .load entry _ | .register entry _ => some entry
  | _ => none

namespace Session

variable {s t : Session} {op : Operation} {o : Outcome} {e : Entry} {k n : Nat}
  {chosen : Option Nat}

/-- The number of the function behind an entry. -/
def function? (s : Session) (n : Nat) : Option Nat := s.entries[n]?.bind fun e => e.function?

/-- There is a host, and it is usable. -/
def accepts (s : Session) (chosen : Option Nat) : Bool :=
  (chosen.bind fun i => s.hosts[i]?).any SessionHost.usable

/-- The operation resolves an entry with this function. -/
def resolves (s : Session) (k : Nat) : Operation → Bool
  | .resolve n => s.function? n = some k
  | _ => false

/-- The operation loads or registers through an entry with this function, for a host that is there
and usable. -/
def attempts (s : Session) (k : Nat) : Operation → Bool
  | .load n chosen | .register n chosen => s.function? n = some k ∧ s.accepts chosen
  | _ => false

theorem function?_eq (he : s.entries[n]? = some e) : s.function? n = e.function? := by
  rw [function?, he, Option.bind_some]

theorem accepts_eq (s : Session) (chosen : Option Nat) :
    s.accepts chosen = (s.obstacle? chosen).isNone := by
  rw [accepts, obstacle?]
  cases chosen.bind fun i => s.hosts[i]? with
  | none => rfl
  | some h => cases hu : h.usable <;> simp [hu]

theorem accepts_of_obstacle {failure : Failure} (hf : s.obstacle? chosen = some failure) :
    s.accepts chosen = false := by
  rw [accepts_eq, hf]
  rfl

theorem accepts_of_usable {i : Nat} {h : SessionHost} (hh : s.hosts[i]? = some h)
    (hu : h.usable = true) : s.accepts (some i) = true := by
  rw [accepts_eq, obstacle?_of_usable hh hu]
  rfl

/-- An operation asks a function in at most one of the two ways. -/
theorem attempts_of_resolves (h : s.resolves k op = true) : s.attempts k op = false := by
  cases op with
  | resolve => rfl
  | _ => cases h

theorem silent_of_lacks (hl : s.Lacks op) (k : Nat) :
    s.resolves k op = false ∧ s.attempts k op = false := by
  cases op with
  | resolve n | load n | register n =>
    have hnone : s.function? n = none := by
      rw [Lacks] at hl
      rw [function?, hl, Option.bind_none]
    simp [resolves, attempts, hnone]
  | _ => exact ⟨rfl, rfl⟩

theorem silent_of_unresolved (hn : op.entry? = some n) (hf : s.function? n = none) (k : Nat) :
    s.resolves k op = false ∧ s.attempts k op = false := by
  cases op with
  | resolve m | load m | register m =>
    cases hn
    simp [resolves, attempts, hf]
  | _ => cases hn

/-! ## One step -/

theorem calls_congr (h : t.functions = s.functions) (k : Nat) : t.calls k = s.calls k := by
  rw [calls, calls, h]

@[simp] theorem keeping_functions (s : Session) (result : Except Failure Exports) :
    (s.keeping result).functions = s.functions := by cases result <;> rfl

@[simp] theorem withHost_functions (s : Session) (i : Nat) (h : SessionHost) :
    (s.withHost i h).functions = s.functions := rfl

theorem calls_setAddress (s : Session) (j : Nat) (address : UInt64) (k : Nat) :
    { s with functions := s.functions.modify j fun f => { f with address } }.calls k =
      s.calls k := by
  simp only [calls, List.getElem?_modify]
  by_cases hj : j = k
  · cases hf : s.functions[k]? <;> simp [hj]
  · simp [hj]

theorem length_called (s : Session) (e : Entry) :
    (s.called e).functions.length = s.functions.length := by
  rw [called]
  cases e.function? <;> simp

theorem Step.length_functions (h : Step s op o t) :
    t.functions.length = s.functions.length := by
  cases h <;> simp [length_called]

/-- A step calls the function that it asks for, once, and no other. -/
theorem Step.calls (h : Step s op o t) (k : Nat) : t.calls k = s.calls k +
    if (s.resolves k op ∨ s.attempts k op) ∧ k < s.functions.length then 1 else 0 := by
  cases h with
  | absent hl =>
    obtain ⟨hr, ha⟩ := silent_of_lacks hl k
    simp [hr, ha]
  | @ignored op hi =>
    cases op with
    | setAddress | setRefusal | setUsable => simp [resolves, attempts]
    | _ => exact hi.elim
  | resolve he => simp [calls_called, resolves, attempts, function?_eq he]
  | loadRefused he hf | registerRefused he hf => simp [resolves, attempts, accepts_of_obstacle hf]
  | load he hh hu =>
    rw [calls_congr (keeping_functions _ _), calls_called]
    simp [resolves, attempts, function?_eq he, accepts_of_usable hh hu]
  | registerUnresolved he hh hu =>
    rw [calls_called]
    simp [resolves, attempts, function?_eq he, accepts_of_usable hh hu]
  | register he hh hu =>
    rw [calls_congr (keeping_functions _ _), calls_congr (withHost_functions _ _ _), calls_called]
    simp [resolves, attempts, function?_eq he, accepts_of_usable hh hu]
  | setAddress => simp [calls_setAddress, resolves, attempts]
  | _ => simp [Session.calls, resolves, attempts]

/-! ## Runs -/

variable {ops : List Operation}

/-- Of the first `n` operations of a run, those that resolve an entry with this function. -/
def resolutions (s : Session) (ops : List Operation) (k n : Nat) : Nat :=
  (List.range n).countP fun m => ops[m]?.any ((s.after ops m).resolves k)

/-- Of the first `n` operations of a run, those that load or register through an entry with this
function, for a host that is there and usable when they begin. -/
def attemptsMade (s : Session) (ops : List Operation) (k n : Nat) : Nat :=
  (List.range n).countP fun m => ops[m]?.any ((s.after ops m).attempts k)

theorem length_functions_after (s : Session) (ops : List Operation) (n : Nat) :
    (s.after ops n).functions.length = s.functions.length := by
  refine lasts_after (P := fun t => t.functions.length = s.functions.length) n.zero_le rfl ?_
  intro m op o _ hstep ih
  rw [hstep.length_functions, ih]

theorem calls_after_succ (hk : k < s.functions.length) (hop : ops[n]? = some op) :
    (s.after ops (n + 1)).calls k = (s.after ops n).calls k +
      if (s.after ops n).resolves k op ∨ (s.after ops n).attempts k op then 1 else 0 := by
  obtain ⟨o, -, hstep⟩ := step_after (s := s) hop
  rw [hstep.calls, length_functions_after]
  simp only [hk, and_true]

theorem calls_after (hk : k < s.functions.length) (ops : List Operation) (n : Nat) :
    (s.after ops n).calls k =
      s.calls k + (s.resolutions ops k n + s.attemptsMade ops k n) := by
  induction n with
  | zero => rfl
  | succ n ih =>
    simp only [resolutions, attemptsMade, List.range_succ, List.countP_append,
      List.countP_singleton] at ih ⊢
    cases hop : ops[n]? with
    | none =>
      rw [after_succ_of_none hop, ih]
      simp
    | some op =>
      rw [calls_after_succ hk hop, ih, Option.any_some, Option.any_some]
      cases hr : (s.after ops n).resolves k op with
      | false =>
        simp
        omega
      | true =>
        rw [attempts_of_resolves hr]
        simp
        omega

theorem calls_opened (addresses : List UInt64) (entries : List Entry) (hosts : List NewHost)
    (k : Nat) : (opened addresses entries hosts).calls k = 0 := by
  simp only [calls, opened, List.getElem?_map]
  cases addresses[k]? <;> rfl

/-- In every run a function has been called as often as entries with it have been resolved, and as
loading or registering through such an entry found a host that was there and usable. Each of these
steps calls it once, whatever its outcome, and no other step calls it; an entry without a function
has none called. A copy of an entry has the function of the original, and an entry that is lent to
the loader serves like the entry itself. -/
theorem calls_match_requests (addresses : List UInt64) (entries : List Entry)
    (hosts : List NewHost) (ops : List Operation) :
    let s := opened addresses entries hosts
    (∀ n (k : Fin addresses.length),
      (s.after ops n).calls k = s.resolutions ops k n + s.attemptsMade ops k n) ∧
    (∀ n op (k : Fin addresses.length), ops[n]? = some op →
      (s.after ops (n + 1)).calls k = (s.after ops n).calls k +
        if (s.after ops n).resolves k op ∨ (s.after ops n).attempts k op then 1 else 0) ∧
    (∀ n op j, ops[n]? = some op → op.entry? = some j → (s.after ops n).function? j = none →
      ∀ k, (s.after ops (n + 1)).calls k = (s.after ops n).calls k) ∧
    (∀ n j e, ops[n]? = some (.copyEntry j) → (s.after ops n).entries[j]? = some e →
      (s.after ops (n + 1)).entries = (s.after ops n).entries ++ [e]) ∧
    ∀ (e : Entry) (host : Option (Host (StateM Session))),
      (source e).borrowed.load host = (source e).load host ∧
      (source e).borrowed.register host = (source e).register host := by
  intro s
  have hfunctions : ∀ k : Fin addresses.length, k < s.functions.length := by
    intro k
    rw [show s.functions.length = addresses.length from List.length_map _]
    exact k.isLt
  refine ⟨?_, ?_, ?_, ?_, fun e host => ⟨rfl, rfl⟩⟩
  · intro n k
    rw [calls_after (hfunctions k), calls_opened, Nat.zero_add]
  · intro n op k hop
    exact calls_after_succ (hfunctions k) hop
  · intro n op j hop hj hf k
    obtain ⟨o, -, hstep⟩ := step_after (s := s) hop
    obtain ⟨hr, ha⟩ := silent_of_unresolved hj hf k
    rw [hstep.calls, hr, ha]
    simp
  · intro n j e hop he
    obtain ⟨o, -, hstep⟩ := step_after (s := s) hop
    rw [hstep.of_copyEntry he]

end Session
end GrammarModule
