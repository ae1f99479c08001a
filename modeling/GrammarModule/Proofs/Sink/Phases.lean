import GrammarModule.Proofs.Loading
import GrammarModule.Proofs.Sink

/-!
# GrammarModule.Proofs.Sink.Phases

The two phases of a publication, told from the requests that an arbitrary host object was asked.
Its operations are run again with every exchange noted (`Sink.traced`).

* `Transcript`: the exchanges of a log are those of the object itself, from state to state.
* `Course`: the five ways in which the exchanges of a publication and its result can go;
  `exists_course` finds the one of every run.
* `publication_in_two_phases`: the order of the requests, where it stops, who is blamed, and that
  nothing is attached before both values are there.
-/

namespace GrammarModule
namespace Sink

variable {σ α β φ : Type}

/-! ## Requests and their answers -/

/-- What the object of a host is asked to do. -/
inductive Request (β : Type) where
  | createText (text : String)
  | createReference (handle : Handle)
  | attach (key : String) (value : β)

namespace Request

def IsCreation : Request β → Prop
  | .createText _ | .createReference _ => True
  | .attach _ _ => False

/-- The key that the request is for. -/
def key : Request β → String
  | .createText _ => "name"
  | .createReference _ => "language"
  | .attach key _ => key

end Request

/-- One request to the object of a host, and the answer that it gave. -/
inductive Exchange (β : Type) where
  | createText (text : String) (answer : Except String β)
  | createReference (handle : Handle) (answer : Except String β)
  | attach (key : String) (value : β) (answer : Except String Unit)

namespace Exchange

def request : Exchange β → Request β
  | .createText text _ => .createText text
  | .createReference handle _ => .createReference handle
  | .attach key value _ => .attach key value

/-- The text of the refusal, if the request was refused. -/
def refusal? : Exchange β → Option String
  | .createText _ (.error reason) | .createReference _ (.error reason)
  | .attach _ _ (.error reason) => some reason
  | .createText _ (.ok _) | .createReference _ (.ok _) | .attach _ _ (.ok _) => none

/-- The object answers the request like this in the state `s`, and is then in the state `t`. -/
def Happens (sink : Sink (StateM σ) β) (s t : σ) : Exchange β → Prop
  | .createText text answer => (sink.createText text).run s = (answer, t)
  | .createReference handle answer => (sink.createReference handle).run s = (answer, t)
  | .attach key value answer => (sink.attach key value).run s = (answer, t)

end Exchange

/-- The exchanges happen one after the other, and nothing between them. -/
inductive Transcript (sink : Sink (StateM σ) β) : σ → List (Exchange β) → σ → Prop
  | nil {s : σ} : Transcript sink s [] s
  | cons {s t u : σ} {e : Exchange β} {log : List (Exchange β)} :
      e.Happens sink s t → Transcript sink t log u → Transcript sink s (e :: log) u

/-- Exchanges that only create values touch nothing that creating leaves alone. -/
theorem Transcript.fields_eq {sink : Sink (StateM σ) β} {fields : σ → φ} {s t : σ}
    {log : List (Exchange β)} (h : Transcript sink s log t)
    (htext : ∀ text s, fields ((sink.createText text).run s).2 = fields s)
    (hreference : ∀ handle s, fields ((sink.createReference handle).run s).2 = fields s)
    (hlog : ∀ e ∈ log, e.request.IsCreation) : fields t = fields s := by
  induction h with
  | nil => rfl
  | @cons s t u e log he _ ih =>
    have hrest := ih fun e he => hlog e (List.mem_cons_of_mem _ he)
    have hcreation := hlog e List.mem_cons_self
    cases e with
    | createText text answer =>
      have hfirst := htext text s
      rw [he] at hfirst
      exact hrest.trans hfirst
    | createReference handle answer =>
      have hfirst := hreference handle s
      rw [he] at hfirst
      exact hrest.trans hfirst
    | attach key value answer => exact hcreation.elim

/-! ## Publications with a log -/

/-- Notes the exchange of an operation in a log beside the state. -/
def logging (exchange : α → Exchange β) (operation : StateM σ α) :
    StateM (σ × List (Exchange β)) α := fun (s, log) =>
  let (answer, s) := operation s
  (answer, s, log ++ [exchange answer])

theorem run_logging {exchange : α → Exchange β} {operation : StateM σ α} {s s' : σ} {a : α}
    {log : List (Exchange β)} (h : operation.run s = (a, s')) :
    (logging exchange operation).run (s, log) = (a, s', log ++ [exchange a]) := by
  have h' : operation s = (a, s') := h
  simp only [logging, StateT.run, h']

def traced (sink : Sink (StateM σ) β) : Sink (StateM (σ × List (Exchange β))) β where
  createText text := logging (.createText text) (sink.createText text)
  createReference handle := logging (.createReference handle) (sink.createReference handle)
  attach key value := logging (.attach key value) (sink.attach key value)

/-- The result of a publication, the state after it, and the exchanges on the way. -/
def publishTrace (sink : Sink (StateM σ) β) (exports : Exports) (s : σ) :
    Except Failure Unit × σ × List (Exchange β) :=
  (sink.traced.publish exports).run (s, [])

theorem Exchange.Happens.traced {sink : Sink (StateM σ) β} {s t : σ} {e : Exchange β}
    (h : e.Happens sink s t) (noted : List (Exchange β)) :
    e.Happens sink.traced (s, noted) (t, noted ++ [e]) := by
  cases e <;> exact run_logging h

/-- What is noted of a transcript is the transcript. -/
theorem Transcript.traced {sink : Sink (StateM σ) β} {s t : σ} {log : List (Exchange β)}
    (h : sink.Transcript s log t) (noted : List (Exchange β)) :
    sink.traced.Transcript (s, noted) log (t, noted ++ log) := by
  induction h generalizing noted with
  | nil =>
    rw [List.append_nil]
    exact .nil
  | @cons s t u e log he _ ih =>
    have hrest := ih (noted ++ [e])
    rw [List.append_assoc, List.singleton_append] at hrest
    exact .cons (he.traced noted) hrest

/-! ## The courses of a publication -/

/-- The exchanges of a publication, and its result: it ends with the first refusal, or well. -/
inductive Course (exports : Exports) : List (Exchange β) → Except Failure Unit → Prop
  | textRefused {reason : String} :
      Course exports [.createText exports.name (.error reason)]
        (.error (.exportRejected Exports.nameKey reason))
  | referenceRefused {name : β} {reason : String} :
      Course exports [.createText exports.name (.ok name),
          .createReference exports.handle (.error reason)]
        (.error (.exportRejected Exports.handleKey reason))
  | nameRefused {name handle : β} {reason : String} :
      Course exports [.createText exports.name (.ok name),
          .createReference exports.handle (.ok handle),
          .attach Exports.nameKey name (.error reason)]
        (.error (.exportRejected Exports.nameKey reason))
  | handleRefused {name handle : β} {reason : String} :
      Course exports [.createText exports.name (.ok name),
          .createReference exports.handle (.ok handle), .attach Exports.nameKey name (.ok ()),
          .attach Exports.handleKey handle (.error reason)]
        (.error (.exportRejected Exports.handleKey reason))
  | done {name handle : β} :
      Course exports [.createText exports.name (.ok name),
          .createReference exports.handle (.ok handle), .attach Exports.nameKey name (.ok ()),
          .attach Exports.handleKey handle (.ok ())]
        (.ok ())

/-- The exchanges of one of the courses fix how the publication runs. -/
theorem Course.run_publish {sink : Sink (StateM σ) β} {exports : Exports} {s t : σ}
    {log : List (Exchange β)} {result : Except Failure Unit} (h : Course exports log result)
    (hlog : sink.Transcript s log t) : (sink.publish exports).run s = (result, t) := by
  rw [publish_eq]
  cases h with
  | textRefused =>
    obtain _ | ⟨h₁, _ | _⟩ := hlog
    rw [run_bind_of_run h₁]
    rfl
  | referenceRefused =>
    obtain _ | ⟨h₁, _ | ⟨h₂, _ | _⟩⟩ := hlog
    rw [run_bind_of_run h₁]
    simp only [run_bind_of_run h₂]
    rfl
  | nameRefused =>
    obtain _ | ⟨h₁, _ | ⟨h₂, _ | ⟨h₃, _ | _⟩⟩⟩ := hlog
    rw [run_bind_of_run h₁]
    simp only [run_bind_of_run h₂, run_bind_of_run h₃]
    rfl
  | handleRefused =>
    obtain _ | ⟨h₁, _ | ⟨h₂, _ | ⟨h₃, _ | ⟨h₄, _ | _⟩⟩⟩⟩ := hlog
    rw [run_bind_of_run h₁]
    simp only [run_bind_of_run h₂, run_bind_of_run h₃, run_bind_of_run h₄]
    rfl
  | done =>
    obtain _ | ⟨h₁, _ | ⟨h₂, _ | ⟨h₃, _ | ⟨h₄, _ | _⟩⟩⟩⟩ := hlog
    rw [run_bind_of_run h₁]
    simp only [run_bind_of_run h₂, run_bind_of_run h₃, run_bind_of_run h₄]
    rfl

/-- From every state the object answers along one of the courses. -/
theorem exists_course (sink : Sink (StateM σ) β) (exports : Exports) (s : σ) :
    ∃ log result t, Course exports log result ∧ sink.Transcript s log t := by
  rcases h₁ : (sink.createText exports.name).run s with ⟨reason | name, s₁⟩
  · exact ⟨_, _, _, .textRefused, .cons h₁ .nil⟩
  rcases h₂ : (sink.createReference exports.handle).run s₁ with ⟨reason | handle, s₂⟩
  · exact ⟨_, _, _, .referenceRefused, .cons h₁ (.cons h₂ .nil)⟩
  rcases h₃ : (sink.attach Exports.nameKey name).run s₂ with ⟨reason | _, s₃⟩
  · exact ⟨_, _, _, .nameRefused, .cons h₁ (.cons h₂ (.cons h₃ .nil))⟩
  rcases h₄ : (sink.attach Exports.handleKey handle).run s₃ with ⟨reason | _, s₄⟩
  · exact ⟨_, _, _, .handleRefused, .cons h₁ (.cons h₂ (.cons h₃ (.cons h₄ .nil)))⟩
  · exact ⟨_, _, _, .done, .cons h₁ (.cons h₂ (.cons h₃ (.cons h₄ .nil)))⟩

/-! ## Both phases -/

/-- The requests of the first phase. -/
def creations (exports : Exports) : List (Request β) :=
  [.createText "abl", .createReference exports.handle]

/-- The requests of the second phase, for the values of the first. -/
def attachments (name handle : β) : List (Request β) :=
  [.attach "name" name, .attach "language" handle]

/-- Both values were created, and are these. -/
def Created (exports : Exports) (log : List (Exchange β)) (name handle : β) : Prop :=
  .createText "abl" (.ok name) ∈ log ∧ .createReference exports.handle (.ok handle) ∈ log

/-- What the exchanges of a publication and its result have to do with each other. -/
structure TwoPhases (exports : Exports) (log : List (Exchange β)) (result : Except Failure Unit) :
    Prop where
  requests : log.map Exchange.request <+: creations exports ∨
    ∃ name handle, Created exports log name handle ∧
      log.map Exchange.request <+: creations exports ++ attachments name handle
  /-- Only the last request can have been refused. -/
  stops : ∀ e ∈ log.dropLast, e.refusal? = none
  ok_iff : result = .ok () ↔ log.length = 4 ∧ ∀ e ∈ log, e.refusal? = none
  error_iff (failure : Failure) : result = .error failure ↔
    ∃ e reason, log.getLast? = some e ∧ e.refusal? = some reason ∧
      failure = .exportRejected e.request.key reason
  created : (∃ e ∈ log, ¬ e.request.IsCreation) → ∃ name handle, Created exports log name handle
  /-- Creating is all that happens when a value is refused. -/
  refused : (∃ e ∈ log, e.request.IsCreation ∧ e.refusal? ≠ none) → ∀ e ∈ log, e.request.IsCreation

theorem Course.twoPhases {exports : Exports} {log : List (Exchange β)}
    {result : Except Failure Unit} (h : Course exports log result) :
    TwoPhases exports log result where
  requests := by
    cases h with
    | textRefused => exact .inl ⟨[.createReference exports.handle], rfl⟩
    | referenceRefused => exact .inl ⟨[], rfl⟩
    | @nameRefused name handle =>
      exact .inr ⟨name, handle, by simp [Created, Exports.name, Exports.language],
        [.attach "language" handle], rfl⟩
    | @handleRefused name handle =>
      exact .inr ⟨name, handle, by simp [Created, Exports.name, Exports.language], [], rfl⟩
    | @done name handle =>
      exact .inr ⟨name, handle, by simp [Created, Exports.name, Exports.language], [], rfl⟩
  stops := by cases h <;> simp [Exchange.refusal?]
  ok_iff := by cases h <;> simp [Exchange.refusal?]
  error_iff failure := by
    cases h <;> simp [Exchange.refusal?, Exchange.request, Request.key, Exports.nameKey,
      Exports.handleKey, eq_comm]
  created := by
    cases h <;> simp [Exchange.request, Request.IsCreation, Created, Exports.name,
      Exports.language]
  refused := by cases h <;> simp [Exchange.request, Exchange.refusal?, Request.IsCreation]

/-- A publication to an object that may do anything, in any state. It asks for both values and then
attaches these in the same order, as far as the first refusal. The result is good when all four
requests were granted, and otherwise it is the refusal, blamed on the export. Nothing is attached
before both values are there, so a value that is refused leaves everything as it was, apart from
what creating values does. -/
theorem publication_in_two_phases (sink : Sink (StateM σ) β) (exports : Exports) (s : σ) :
    ∃ log result t, sink.publishTrace exports s = (result, t, log) ∧
      (sink.publish exports).run s = (result, t) ∧
      sink.Transcript s log t ∧
      TwoPhases exports log result ∧
      ∀ (φ : Type) (fields : σ → φ),
        (∀ text s, fields ((sink.createText text).run s).2 = fields s) →
        (∀ handle s, fields ((sink.createReference handle).run s).2 = fields s) →
        (∃ e ∈ log, e.request.IsCreation ∧ e.refusal? ≠ none) → fields t = fields s := by
  obtain ⟨log, result, t, course, transcript⟩ := sink.exists_course exports s
  refine ⟨log, result, t, course.run_publish (transcript.traced []),
    course.run_publish transcript, transcript, course.twoPhases, ?_⟩
  intro φ fields htext hreference hrefused
  exact transcript.fields_eq htext hreference (course.twoPhases.refused hrefused)

/-- An object that counts the values it creates and keeps the keys it is given refuses the
reference: the second request is the last, and no key is attached. -/
theorem publication_in_two_phases_refused :
    let sink : Sink (StateM (Nat × List String)) Nat :=
      ⟨fun _ s => (.ok s.1, s.1 + 1, s.2), fun _ s => (.error "taken", s),
        fun key _ s => (.ok (), s.1, key :: s.2)⟩
    let exports : Exports := ⟨⟨0x1000, by decide⟩⟩
    let log : List (Exchange Nat) :=
      [.createText "abl" (.ok 7), .createReference exports.handle (.error "taken")]
    let result : Except Failure Unit := .error (.exportRejected "language" "taken")
    (sink.publishTrace exports (7, [])).2.2 = log ∧ TwoPhases exports log result ∧
      ((sink.publish exports).run (7, [])).2.2 = [] := by
  intro sink exports log result
  obtain ⟨log', result', t, htrace, hrun, -, hphases, hfields⟩ :=
    publication_in_two_phases sink exports (7, [])
  have hcourse : sink.publishTrace exports (7, []) = (result, (8, []), log) := rfl
  cases hcourse.symm.trans htrace
  have hrefused : ∃ e ∈ log, e.request.IsCreation ∧ e.refusal? ≠ none :=
    ⟨.createReference exports.handle (.error "taken"), by simp [log], trivial,
      Option.some_ne_none _⟩
  have hkeys := hfields _ Prod.snd (fun _ _ => rfl) (fun _ _ => rfl) hrefused
  exact ⟨rfl, hphases, (congrArg (fun run => run.2.2) hrun).trans hkeys⟩

end Sink
end GrammarModule
