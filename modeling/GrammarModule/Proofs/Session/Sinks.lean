import GrammarModule.Proofs.Session.OneShot
import GrammarModule.Proofs.Sink

/-!
# GrammarModule.Proofs.Session.Sinks

What a host with an object notes over a whole run. A publication makes the calls of its plan up to
the first that is refused (`SinkHost.made`), and attaches what the granted ones among them attach
(`SinkHost.gains`); every other step leaves both lists as they are. `sink_history` puts the pieces
of all steps together.
-/

namespace GrammarModule

namespace SinkHost

variable {h : SinkHost} {exports : Exports} {call : SinkCall} {plan calls : List SinkCall}

/-- The calls of a publication in which nothing is refused. -/
def planned (exports : Exports) : List SinkCall :=
  [⟨.createText, exports.name⟩, ⟨.createReference, exports.handle.text⟩,
    ⟨.attach, Exports.nameKey⟩, ⟨.attach, Exports.handleKey⟩]

/-- The calls of a plan that are made, the first refusal being the end. -/
def made (h : SinkHost) : List SinkCall → List SinkCall
  | [] => []
  | call :: rest => call :: if h.reason? call = none then h.made rest else []

/-- The host's value for the export under a key. -/
def valueUnder (exports : Exports) (key : String) : String :=
  if key = Exports.nameKey then "string " ++ exports.name else "external " ++ exports.handle.text

/-- What calls attach: a value under each key that the host grants. -/
def gains (h : SinkHost) (exports : Exports) (calls : List SinkCall) : List (String × String) :=
  calls.filterMap fun call =>
    match call.operation, h.reason? call with
    | .attach, none => some (call.argument, valueUnder exports call.argument)
    | _, _ => none

/-- The host after calls, and with what they attached. -/
def noted (h : SinkHost) (calls : List SinkCall) (gains : List (String × String)) : SinkHost :=
  { h with calls := h.calls ++ calls, attached := h.attached ++ gains }

@[simp] theorem noted_noted (h : SinkHost) (calls calls' : List SinkCall)
    (gains gains' : List (String × String)) :
    (h.noted calls gains).noted calls' gains' = h.noted (calls ++ calls') (gains ++ gains') := by
  simp [noted]

@[simp] theorem reason?_noted (h : SinkHost) (calls : List SinkCall)
    (gains : List (String × String)) (call : SinkCall) :
    (h.noted calls gains).reason? call = h.reason? call := rfl

/-! ## The calls that are made -/

theorem made_prefix (h : SinkHost) (plan : List SinkCall) : h.made plan <+: plan := by
  induction plan with
  | nil => exact List.nil_prefix
  | cons call rest ih =>
    rw [made, List.cons_prefix_cons]
    refine ⟨rfl, ?_⟩
    split
    · exact ih
    · exact List.nil_prefix

theorem made_of_granted (hg : ∀ call ∈ plan, h.reason? call = none) : h.made plan = plan := by
  induction plan with
  | nil => rfl
  | cons call rest ih =>
    rw [made, if_pos (hg call List.mem_cons_self), ih]
    exact fun call hcall => hg call (List.mem_cons_of_mem _ hcall)

theorem granted_of_mem_dropLast (hc : call ∈ (h.made plan).dropLast) : h.reason? call = none := by
  induction plan with
  | nil => cases hc
  | cons first rest ih =>
    rw [made] at hc
    split at hc
    · next hfirst =>
      rcases List.mem_cons.1 (List.dropLast_subset _ hc) with rfl | hrest
      · exact hfirst
      · cases hm : h.made rest with
        | nil =>
          rw [hm] at hrest
          cases hrest
        | cons second more =>
          rw [hm, List.dropLast_cons_cons] at hc
          rcases List.mem_cons.1 hc with rfl | hc
          · exact hfirst
          · exact ih (hm ▸ hc)
    · cases hc

theorem made_ends (h : SinkHost) (plan : List SinkCall) :
    (∀ call ∈ plan, h.reason? call = none) ∨
      ∃ call, (h.made plan).getLast? = some call ∧ h.reason? call ≠ none := by
  induction plan with
  | nil => exact .inl fun _ hcall => nomatch hcall
  | cons call rest ih =>
    by_cases hcall : h.reason? call = none
    · rw [made, if_pos hcall]
      rcases ih with hg | ⟨last, hlast, hrefused⟩
      · left
        intro other hother
        rcases List.mem_cons.1 hother with rfl | hother
        · exact hcall
        · exact hg other hother
      · right
        refine ⟨last, ?_, hrefused⟩
        rw [List.getLast?_cons, hlast]
        rfl
    · right
      rw [made, if_neg hcall]
      exact ⟨call, rfl, hcall⟩

/-! ## One request -/

/-- The answer to a call that would give a value. -/
def answer {α : Type} (h : SinkHost) (call : SinkCall) (value : α) : Except String α :=
  match h.reason? call with
  | some reason => .error reason
  | none => .ok value

theorem answer_refused {α : Type} {reason : String} (hr : h.reason? call = some reason)
    (value : α) : h.answer call value = .error reason := by
  simp only [answer, hr]

theorem answer_granted {α : Type} (hr : h.reason? call = none) (value : α) :
    h.answer call value = .ok value := by
  simp only [answer, hr]

theorem answer_noted {α : Type} (h : SinkHost) (calls : List SinkCall)
    (gains : List (String × String)) (call : SinkCall) (value : α) :
    (h.noted calls gains).answer call value = h.answer call value := rfl

theorem run_perform {α : Type} (h : SinkHost) (call : SinkCall) (effect : SinkHost → α × SinkHost) :
    (perform call effect).run h = match h.reason? call with
      | some reason => (.error reason, h.noted [call] [])
      | none => (.ok (effect (h.noted [call] [])).1, (effect (h.noted [call] [])).2) := by
  have hnoted : { h with calls := h.calls ++ [call] } = h.noted [call] [] := by simp [noted]
  cases hr : h.reason? call <;> simp [perform, StateT.run, hnoted, hr]

theorem run_createText (h : SinkHost) (text : String) : (sink.createText text).run h =
    (h.answer ⟨.createText, text⟩ ("string " ++ text), h.noted [⟨.createText, text⟩] []) := by
  rw [sink, run_perform, answer]
  cases h.reason? ⟨.createText, text⟩ <;> rfl

theorem run_createReference (h : SinkHost) (handle : Handle) :
    (sink.createReference handle).run h =
      (h.answer ⟨.createReference, handle.text⟩ ("external " ++ handle.text),
        h.noted [⟨.createReference, handle.text⟩] []) := by
  rw [sink, run_perform, answer]
  cases h.reason? ⟨.createReference, handle.text⟩ <;> rfl

theorem run_attach (h : SinkHost) (key value : String) : (sink.attach key value).run h =
    (h.answer ⟨.attach, key⟩ (), h.noted [⟨.attach, key⟩]
      (match h.reason? ⟨.attach, key⟩ with
      | some _ => []
      | none => [(key, value)])) := by
  rw [sink, run_perform, answer]
  cases h.reason? ⟨.attach, key⟩ with
  | some reason => rfl
  | none => simp [noted]

/-! ## One publication -/

/-- A publication makes the calls of its plan up to the first refusal, and succeeds when there is
none. -/
theorem run_publish (h : SinkHost) (exports : Exports) :
    ∃ answer, (sink.publish exports).run h =
        (answer, h.noted (h.made (planned exports)) (h.gains exports (h.made (planned exports)))) ∧
      (answer = .ok () ↔ ∀ call ∈ planned exports, h.reason? call = none) := by
  have hkey : Exports.handleKey ≠ Exports.nameKey := by decide
  rw [Sink.publish_eq, run_bind_of_run (h.run_createText _)]
  cases h₁ : h.reason? ⟨.createText, exports.name⟩ with
  | some reason =>
    rw [answer_refused h₁]
    refine ⟨.error (.exportRejected Exports.nameKey reason), congrArg (Prod.mk _) ?_, ?_⟩
    · simp [made, planned, gains, h₁]
    · simp [planned, h₁]
  | none =>
    simp only [answer_granted h₁]
    rw [run_bind_of_run (run_createReference _ _), answer_noted, noted_noted]
    cases h₂ : h.reason? ⟨.createReference, exports.handle.text⟩ with
    | some reason =>
      rw [answer_refused h₂]
      refine ⟨.error (.exportRejected Exports.handleKey reason), congrArg (Prod.mk _) ?_, ?_⟩
      · simp [made, planned, gains, h₁, h₂]
      · simp [planned, h₂]
    | none =>
      simp only [answer_granted h₂]
      rw [run_bind_of_run (run_attach _ _ _), answer_noted, noted_noted, reason?_noted]
      cases h₃ : h.reason? ⟨.attach, Exports.nameKey⟩ with
      | some reason =>
        rw [answer_refused h₃]
        refine ⟨.error (.exportRejected Exports.nameKey reason), congrArg (Prod.mk _) ?_, ?_⟩
        · simp [made, planned, gains, h₁, h₂, h₃]
        · simp [planned, h₃]
      | none =>
        simp only [answer_granted h₃]
        rw [run_bind_of_run (run_attach _ _ _), answer_noted, noted_noted, reason?_noted]
        cases h₄ : h.reason? ⟨.attach, Exports.handleKey⟩ with
        | some reason =>
          rw [answer_refused h₄]
          refine ⟨.error (.exportRejected Exports.handleKey reason), congrArg (Prod.mk _) ?_, ?_⟩
          · simp [made, planned, gains, valueUnder, h₁, h₂, h₃, h₄]
          · simp [planned, h₄]
        | none =>
          rw [answer_granted h₄]
          refine ⟨.ok (), congrArg (Prod.mk _) ?_, ?_⟩
          · simp [made, planned, gains, valueUnder, hkey, h₁, h₂, h₃, h₄]
          · simp [planned, h₁, h₂, h₃, h₄]

/-- The calls of one publication: those planned, up to the first that is refused. -/
structure Segment (h : SinkHost) (exports : Exports) (calls : List SinkCall) : Prop where
  ne_nil : calls ≠ []
  planned : calls <+: planned exports
  granted : ∀ call ∈ calls.dropLast, h.reason? call = none
  ends : calls = SinkHost.planned exports ∨
    ∃ call, calls.getLast? = some call ∧ h.reason? call ≠ none

theorem segment_made (h : SinkHost) (exports : Exports) :
    h.Segment exports (h.made (planned exports)) where
  ne_nil := by simp [SinkHost.planned, made]
  planned := made_prefix h _
  granted _ hcall := granted_of_mem_dropLast hcall
  ends := (made_ends h _).imp_left made_of_granted

/-- Nothing is attached, or the name alone when the handle is refused, or both in order. -/
theorem Segment.gains_cases (hs : h.Segment exports calls) :
    h.gains exports calls = [] ∨
      h.gains exports calls = [(Exports.nameKey, "string " ++ exports.name)] ∧
        calls = SinkHost.planned exports ∧ h.reason? ⟨.attach, Exports.handleKey⟩ ≠ none ∨
      h.gains exports calls = [(Exports.nameKey, "string " ++ exports.name),
        (Exports.handleKey, "external " ++ exports.handle.text)] := by
  have hkey : Exports.handleKey ≠ Exports.nameKey := by decide
  obtain ⟨hne, hprefix, hgranted, hends⟩ := hs
  simp only [SinkHost.planned, List.prefix_cons_iff, List.prefix_nil] at hprefix
  rcases hprefix with rfl | ⟨_, rfl, rfl | ⟨_, rfl, rfl | ⟨_, rfl, rfl | ⟨_, rfl, rfl⟩⟩⟩⟩
  · exact absurd rfl hne
  · exact .inl rfl
  · exact .inl rfl
  · -- the name was the last call: it was refused
    rcases hends with hends | ⟨call, hlast, hrefused⟩
    · cases hends
    · obtain rfl : ⟨.attach, Exports.nameKey⟩ = call := Option.some.inj hlast
      obtain ⟨reason, hreason⟩ := Option.ne_none_iff_exists'.1 hrefused
      exact .inl (by simp [gains, hreason])
  · have hname : h.reason? ⟨.attach, Exports.nameKey⟩ = none := hgranted _ (by simp)
    cases hhandle : h.reason? ⟨.attach, Exports.handleKey⟩ with
    | some reason => exact .inr (.inl ⟨by simp [gains, valueUnder, hname, hhandle], rfl, by simp⟩)
    | none => exact .inr (.inr (by simp [gains, valueUnder, hkey, hname, hhandle]))

end SinkHost

namespace Session

variable {s t : Session} {op : Operation} {o : Outcome} {i : Nat} {m : SinkHost}
  {exports : Exports}

/-- The operation publishes the exports to the host: directly, or by registering on a usable host
through an entry that gives the handle. -/
inductive Offers (s : Session) (i : Nat) (exports : Exports) : Operation → Prop
  | register {n : Nat} {e : Entry} {h : SessionHost} (he : s.entries[n]? = some e)
      (hh : s.hosts[i]? = some h) (hu : h.usable = true) (ha : s.handle? e = some exports.handle) :
      Offers s i exports (.register n (some i))
  | publish {k : Nat} (hk : s.records[k]? = some exports) : Offers s i exports (.publish i k)

theorem answer_eq_ok_iff {e : Entry} {handle : Handle} :
    s.answer e = .ok handle ↔ s.handle? e = some handle := by
  rw [answer]
  cases s.handle? e <;> simp

theorem delivers_register_iff {n : Nat} {answer : Except Failure Unit} :
    s.Delivers exports (.register n (some i)) (.record (answer.map fun _ => exports)) ↔
      answer = .ok () := by
  constructor
  · intro h
    cases answer with
    | error failure => cases h
    | ok => rfl
  · rintro rfl
    exact .register

theorem delivers_publish_iff {k : Nat} {answer : Except Failure Unit}
    (hk : s.records[k]? = some exports) :
    s.Delivers exports (.publish i k) (.published answer) ↔ answer = .ok () := by
  constructor
  · rintro ⟨⟩
    rfl
  · rintro rfl
    exact .publish hk

theorem Step.of_offers (h : Step s op o t) (hh : s.hosts[i]? = some (.sink m))
    (ho : s.Offers i exports op) : ∃ calls, m.Segment exports calls ∧
      t.hosts[i]? = some (.sink (m.noted calls (m.gains exports calls))) ∧
      (s.Delivers exports op o ↔
        calls = SinkHost.planned exports ∧ ∀ call ∈ calls, m.reason? call = none) := by
  obtain ⟨answer, hrun, hok⟩ := m.run_publish exports
  have hpublish : (SessionHost.sink m).publish exports = (answer, .sink (m.noted _ _)) :=
    congrArg (Prod.map id SessionHost.sink) hrun
  have hcomplete : answer = .ok () ↔ m.made (SinkHost.planned exports) = SinkHost.planned exports ∧
      ∀ call ∈ m.made (SinkHost.planned exports), m.reason? call = none := by
    rw [hok]
    constructor
    · intro hg
      rw [SinkHost.made_of_granted hg]
      exact ⟨rfl, hg⟩
    · rintro ⟨hm, hg⟩
      rwa [hm] at hg
  refine ⟨_, m.segment_made exports, ?_⟩
  rw [← hcomplete]
  obtain ⟨hi, -⟩ := List.getElem?_eq_some_iff.1 hh
  cases ho with
  | @register n e x he hx hu ha =>
    rw [hh] at hx
    cases hx
    obtain ⟨rfl, rfl⟩ := h.of_register he hh hu (answer_eq_ok_iff.2 ha)
    rw [hpublish, keeping_hosts, withHost, called_hosts, List.getElem?_set_self hi]
    exact ⟨rfl, delivers_register_iff⟩
  | publish hk =>
    obtain ⟨rfl, rfl⟩ := h.of_publish hh hk
    rw [hpublish, withHost, List.getElem?_set_self hi]
    exact ⟨rfl, delivers_publish_iff hk⟩

/-- A setting of a host leaves what all hosts have noted. -/
theorem set_kept {j : Nat} {x x' : SinkHost} (hh : s.hosts[i]? = some (.sink m))
    (hx : s.hosts[j]? = some (.sink x)) (hc : x'.calls = x.calls)
    (ha : x'.attached = x.attached) : ∃ m', (s.withHost j (.sink x')).hosts[i]? = some (.sink m') ∧
      m'.calls = m.calls ∧ m'.attached = m.attached := by
  by_cases hj : j = i
  · subst hj
    obtain ⟨hi, -⟩ := List.getElem?_eq_some_iff.1 hx
    rw [hh] at hx
    cases hx
    exact ⟨x', by rw [withHost, List.getElem?_set_self hi], hc, ha⟩
  · exact ⟨m, by rw [withHost, List.getElem?_set_ne hj, hh], rfl, rfl⟩

theorem Step.of_not_offers (h : Step s op o t) (hh : s.hosts[i]? = some (.sink m))
    (hn : ∀ exports, ¬ s.Offers i exports op) :
    ∃ m', t.hosts[i]? = some (.sink m') ∧ m'.calls = m.calls ∧ m'.attached = m.attached := by
  cases h with
  | @register n j e x x' handle answer he hx hu ha hp =>
    have hj : j ≠ i := by
      rintro rfl
      exact hn ⟨handle⟩ (.register he hx hu (answer_eq_ok_iff.1 ha))
    refine ⟨m, ?_, rfl, rfl⟩
    rw [keeping_hosts, withHost, List.getElem?_set_ne hj, called_hosts, hh]
  | @publish j k x x' exports answer hx hk hp =>
    have hj : j ≠ i := by
      rintro rfl
      exact hn exports (.publish hk)
    refine ⟨m, ?_, rfl, rfl⟩
    rw [withHost, List.getElem?_set_ne hj, hh]
  | setRefusal hx => exact set_kept hh hx rfl rfl
  | setUsable hx => exact set_kept hh hx rfl rfl
  | cloneHost =>
    obtain ⟨hi, -⟩ := List.getElem?_eq_some_iff.1 hh
    exact ⟨m, (List.getElem?_append_left hi).trans hh, rfl, rfl⟩
  | _ => exact ⟨m, by simpa using hh, rfl, rfl⟩

/-! ## Runs -/

/-- What a step adds to the calls and to what is attached, for the host as it was before the
step. -/
inductive Adds (s : Session) (op : Operation) (o : Outcome) (i : Nat) (m : SinkHost) :
    List SinkCall → List (String × String) → Prop
  | publication {exports : Exports} {calls : List SinkCall} (offers : s.Offers i exports op)
      (segment : m.Segment exports calls)
      (complete : s.Delivers exports op o ↔
        calls = SinkHost.planned exports ∧ ∀ call ∈ calls, m.reason? call = none)
      (gains : m.gains exports calls = [] ∨
        m.gains exports calls = [(Exports.nameKey, "string " ++ exports.name)] ∧
          calls = SinkHost.planned exports ∧ m.reason? ⟨.attach, Exports.handleKey⟩ ≠ none ∨
        m.gains exports calls = [(Exports.nameKey, "string " ++ exports.name),
          (Exports.handleKey, "external " ++ exports.handle.text)]) :
      Adds s op o i m calls (m.gains exports calls)
  | silence (idle : ∀ exports, ¬ s.Offers i exports op) : Adds s op o i m [] []

theorem Step.adds (h : Step s op o t) (hh : s.hosts[i]? = some (.sink m)) :
    ∃ calls gains m', s.Adds op o i m calls gains ∧ t.hosts[i]? = some (.sink m') ∧
      m'.calls = m.calls ++ calls ∧ m'.attached = m.attached ++ gains := by
  by_cases ho : ∃ exports, s.Offers i exports op
  · obtain ⟨exports, ho⟩ := ho
    obtain ⟨calls, hs, ht, hd⟩ := h.of_offers hh ho
    exact ⟨calls, _, _, .publication ho hs hd hs.gains_cases, ht, rfl, rfl⟩
  · rw [not_exists] at ho
    obtain ⟨m', ht, hc, ha⟩ := h.of_not_offers hh ho
    exact ⟨[], [], m', .silence ho, ht, by simp [hc], by simp [ha]⟩

/-- Over operations, a host that has noted `calls` and `attached` notes one piece for each step. -/
def SinkHistory (s : Session) (ops : List Operation) (i : Nat) (calls : List SinkCall)
    (attached : List (String × String)) : Prop :=
  ∃ pieces : List (List SinkCall × List (String × String)), pieces.length = ops.length ∧
    (∀ n op o t piece, ops[n]? = some op → (s.run ops)[n]? = some (o, t) →
      pieces[n]? = some piece → ∃ m, (s.after ops n).hosts[i]? = some (.sink m) ∧
        (s.after ops n).Adds op o i m piece.1 piece.2) ∧
    ∃ m, (s.after ops ops.length).hosts[i]? = some (.sink m) ∧
      m.calls = calls ++ pieces.flatMap (·.1) ∧ m.attached = attached ++ pieces.flatMap (·.2)

theorem sinkHistory (ops : List Operation) (hh : s.hosts[i]? = some (.sink m)) :
    s.SinkHistory ops i m.calls m.attached := by
  induction ops generalizing s m with
  | nil =>
    refine ⟨[], rfl, ?_, m, hh, by simp, by simp⟩
    intro n op o t piece hop
    cases hop
  | cons op ops ih =>
    obtain ⟨calls, gains, m', hadds, hh', hcalls, hattached⟩ := (perform_step rfl).adds hh
    obtain ⟨pieces, hlength, hpieces, last, hlast, hcalls', hattached'⟩ := ih hh'
    refine ⟨(calls, gains) :: pieces, by simp [hlength], ?_, last, hlast, ?_, ?_⟩
    · intro n op' o t piece hop hrun hpiece
      cases n with
      | zero =>
        cases hop
        cases hrun
        cases hpiece
        exact ⟨m, hh, hadds⟩
      | succ n => exact hpieces n op' o t piece hop hrun hpiece
    · rw [hcalls', hcalls, List.flatMap_cons, List.append_assoc]
    · rw [hattached', hattached, List.flatMap_cons, List.append_assoc]

/-- In every run the calls that a new host has noted are those of the publications to it, in the
order of the steps, and what is attached to it is what the granted ones among them attach. A copy
goes on from what its original had noted when the copy was made. -/
theorem sink_history (addresses : List UInt64) (entries : List Entry) (hosts : List NewHost)
    (ops : List Operation) :
    let s := opened addresses entries hosts
    (∀ i m, s.hosts[i]? = some (.sink m) → s.SinkHistory ops i [] []) ∧
    (∀ n i m, (s.after ops n).hosts[i]? = some (.sink m) →
      (s.after ops n).SinkHistory (ops.drop n) i m.calls m.attached) ∧
    ∀ n j m, ops[n]? = some (.cloneHost j) → (s.after ops n).hosts[j]? = some (.sink m) →
      (s.after ops (n + 1)).hosts[(s.after ops n).hosts.length]? = some (.sink m) := by
  intro s
  refine ⟨?_, ?_, ?_⟩
  · intro i m hh
    have hnew : m.calls = [] ∧ m.attached = [] := by
      obtain ⟨new, -, hm⟩ := List.mem_map.1 (List.mem_of_getElem? hh)
      cases new with
      | slot label usable => cases usable <;> cases hm
      | sink =>
        cases hm
        exact ⟨rfl, rfl⟩
    have hhistory := sinkHistory ops hh
    rwa [hnew.1, hnew.2] at hhistory
  · intro n i m hh
    exact sinkHistory _ hh
  · intro n j m hop hh
    obtain ⟨o, hstep⟩ : ∃ o, Step (s.after ops n) (.cloneHost j) o (s.after ops (n + 1)) :=
      ⟨_, perform_step (congrArg (Prod.mk _) (after_succ hop).symm)⟩
    generalize s.after ops (n + 1) = t at hstep
    cases hstep with
    | absent hl =>
      rw [Lacks, hh] at hl
      cases hl
    | ignored hi => exact hi.elim
    | cloneHost hh' =>
      rw [hh] at hh'
      cases hh'
      simp

/-- The handle is refused, then there is no handle to publish, and then nothing is refused. -/
example :
    let s := opened [0x1000] [⟨"grammar", some 0⟩]
      [.sink "object" true (some ⟨.attach, some "language", "taken"⟩)]
    let ops := [.register 0 (some 0), .setAddress 0 0, .register 0 (some 0),
      .setRefusal 0 none, .setAddress 0 0x2000, .register 0 (some 0)]
    (s.after ops 6).hosts.map (fun
      | .sink h => h.attached.map Prod.fst
      | .slot _ => []) = [["name", "name", "language"]] := by
  cbv

end Session
end GrammarModule
