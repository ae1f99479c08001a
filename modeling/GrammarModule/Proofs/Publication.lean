import GrammarModule.Proofs.Session.Sinks

/-!
# GrammarModule.Proofs.Publication

What a publication leaves on an object of a host that may refuse any request, in any state.

* `Honest.ends_publish`, `Honest.ends_register`: both values are created before the first is
  attached, so a failure leaves the object as it was, unless the handle is refused after the name
  was attached (`StopsHalfway`). Nothing takes the name back then.
* `publication_whole_unless_halfway`: from this, for every run in which exports are published to an
  object, when it has both exports or neither all the time.
* `refused_handle_leaves_name`: a registration that fails, and leaves the name alone.
-/

namespace GrammarModule
namespace Sink

variable {σ β φ α γ : Type} {s s₁ t : σ}

/-- How what is attached to an object is read off its state, and what attaching does to that. -/
structure View (σ β φ : Type) where
  fields : σ → φ
  put : String → β → φ → φ
  Has : φ → String → Prop
  has_put (key : String) (value : β) (f : φ) (other : String) :
    Has (put key value f) other ↔ other = key ∨ Has f other

/-- Values are created without attaching anything, and a refused value is not attached. -/
structure Honest (sink : Sink (StateM σ) β) (view : View σ β φ) : Prop where
  createText {text : String} {s t : σ} {answer : Except String β} :
    (sink.createText text).run s = (answer, t) → view.fields t = view.fields s
  createReference {handle : Handle} {s t : σ} {answer : Except String β} :
    (sink.createReference handle).run s = (answer, t) → view.fields t = view.fields s
  refused {key : String} {value : β} {s t : σ} {reason : String} :
    (sink.attach key value).run s = (.error reason, t) → view.fields t = view.fields s
  granted {key : String} {value : β} {s t : σ} :
    (sink.attach key value).run s = (.ok (), t) →
      view.fields t = view.put key value (view.fields s)

/-- The publication comes to its last request, the attachment of the handle, and this is refused. -/
inductive StopsHalfway (sink : Sink (StateM σ) β) (exports : Exports) (s : σ) : Prop
  | intro {name handle : β} {s₁ s₂ s₃ s₄ : σ} {reason : String}
      (text : (sink.createText exports.name).run s = (.ok name, s₁))
      (reference : (sink.createReference exports.handle).run s₁ = (.ok handle, s₂))
      (first : (sink.attach Exports.nameKey name).run s₂ = (.ok (), s₃))
      (second : (sink.attach Exports.handleKey handle).run s₃ = (.error reason, s₄)) :
      StopsHalfway sink exports s

/-- The ends of an attempt to publish, given whether it stops halfway: the answer, and what is then
attached. -/
inductive Ends (view : View σ β φ) (halfway : Prop) (s : σ) : Except Failure α → σ → Prop
  | untouched {failure : Failure} {t : σ} (hn : ¬ halfway)
      (fields : view.fields t = view.fields s) : Ends view halfway s (.error failure) t
  | halfway {reason : String} {name : β} {t : σ} (hh : halfway)
      (fields : view.fields t = view.put Exports.nameKey name (view.fields s)) :
      Ends view halfway s (.error (.exportRejected Exports.handleKey reason)) t
  | whole {result : α} {name handle : β} {t : σ} (hn : ¬ halfway)
      (fields : view.fields t =
        view.put Exports.handleKey handle (view.put Exports.nameKey name (view.fields s))) :
      Ends view halfway s (.ok result) t

variable {sink : Sink (StateM σ) β} {view : View σ β φ} {exports : Exports}

/-! ## One publication -/

theorem Honest.ends_publish (honest : sink.Honest view) (exports : Exports) (s : σ) :
    Ends view (sink.StopsHalfway exports s) s ((sink.publish exports).run s).1
      ((sink.publish exports).run s).2 := by
  rw [publish_eq]
  rcases h₁ : (sink.createText exports.name).run s with ⟨reason | name, s₁⟩
  · rw [run_bind_of_run h₁]
    refine .untouched ?_ (honest.createText h₁)
    rintro ⟨text, -, -, -⟩
    cases h₁.symm.trans text
  rw [run_bind_of_run h₁]
  rcases h₂ : (sink.createReference exports.handle).run s₁ with ⟨reason | handle, s₂⟩
  · simp only [run_bind_of_run h₂]
    refine .untouched ?_ ((honest.createReference h₂).trans (honest.createText h₁))
    rintro ⟨text, reference, -, -⟩
    cases h₁.symm.trans text
    cases h₂.symm.trans reference
  simp only [run_bind_of_run h₂]
  have created : view.fields s₂ = view.fields s :=
    (honest.createReference h₂).trans (honest.createText h₁)
  rcases h₃ : (sink.attach Exports.nameKey name).run s₂ with ⟨reason | _, s₃⟩
  · simp only [run_bind_of_run h₃]
    refine .untouched ?_ ((honest.refused h₃).trans created)
    rintro ⟨text, reference, first, -⟩
    cases h₁.symm.trans text
    cases h₂.symm.trans reference
    cases h₃.symm.trans first
  -- from here on the name is attached
  simp only [run_bind_of_run h₃]
  have named : view.fields s₃ = view.put Exports.nameKey name (view.fields s) := by
    rw [honest.granted h₃, created]
  rcases h₄ : (sink.attach Exports.handleKey handle).run s₃ with ⟨reason | _, s₄⟩
  · simp only [run_bind_of_run h₄]
    exact .halfway (.intro h₁ h₂ h₃ h₄) ((honest.refused h₄).trans named)
  · simp only [run_bind_of_run h₄]
    have both : view.fields s₄ =
        view.put Exports.handleKey handle (view.put Exports.nameKey name (view.fields s)) := by
      rw [honest.granted h₄, named]
    refine .whole ?_ both
    rintro ⟨text, reference, first, second⟩
    cases h₁.symm.trans text
    cases h₂.symm.trans reference
    cases h₃.symm.trans first
    cases h₄.symm.trans second

/-! ## One registration -/

/-- The host publishes to the object, and neither it nor the source touches what is attached
otherwise. -/
structure Serves (sink : Sink (StateM σ) β) (view : View σ β φ) (source : Source (StateM σ))
    (host : Host (StateM σ)) : Prop where
  publish : host.publish = sink.publish
  usable {s t : σ} {answer : Bool} :
    host.usable.run s = (answer, t) → view.fields t = view.fields s
  description {s t : σ} {answer : String} :
    host.description.run s = (answer, t) → view.fields t = view.fields s
  resolve {s t : σ} {answer : Except Failure Handle} :
    source.resolve.run s = (answer, t) → view.fields t = view.fields s

/-- Exports are built for the host, and their publication stops halfway. -/
def RegistersHalfway (sink : Sink (StateM σ) β) (source : Source (StateM σ))
    (host : Host (StateM σ)) (s : σ) : Prop :=
  ∃ exports s₁, (source.load (some host)).run s = (.ok exports, s₁) ∧ sink.StopsHalfway exports s₁

variable {source : Source (StateM σ)} {host : Host (StateM σ)}

theorem Serves.fields_load (serves : sink.Serves view source host)
    {answer : Except Failure Exports} (h : (source.load (some host)).run s = (answer, t)) :
    view.fields t = view.fields s := by
  rcases hu : host.usable.run s with ⟨_ | _, s₁⟩
  · rw [source.run_load_unusable host hu rfl] at h
    cases h
    exact (serves.description rfl).trans (serves.usable hu)
  · rw [source.run_load_usable host hu rfl] at h
    cases h
    exact (serves.resolve rfl).trans (serves.usable hu)

/-- Another result, and an earlier state with the same fields, make no difference. -/
theorem Ends.map {p q : Prop} {answer : Except Failure α} (h : Ends view p s₁ answer t)
    (hpq : q ↔ p) (fields : view.fields s₁ = view.fields s) (f : α → γ) :
    Ends view q s (answer.map f) t := by
  cases h with
  | untouched hn ht => exact .untouched (mt hpq.1 hn) (ht.trans fields)
  | halfway hh ht => exact .halfway (hpq.2 hh) (by rw [ht, fields])
  | whole hn ht => exact .whole (mt hpq.1 hn) (by rw [ht, fields])

/-- A failure leaves the object as it was, or with the name when the handle was refused halfway. -/
theorem Ends.of_error {p : Prop} {failure : Failure}
    (h : Ends view p s (.error failure : Except Failure α) t) :
    (¬ p → view.fields t = view.fields s) ∧
    (p → (∃ reason, failure = .exportRejected Exports.handleKey reason) ∧
      ∃ name, view.fields t = view.put Exports.nameKey name (view.fields s)) := by
  cases h with
  | untouched hn ht => exact ⟨fun _ => ht, fun hp => absurd hp hn⟩
  | halfway hh ht => exact ⟨fun hn => absurd hh hn, fun _ => ⟨⟨_, rfl⟩, _, ht⟩⟩

theorem Honest.ends_register (honest : sink.Honest view) (serves : sink.Serves view source host)
    (s : σ) : Ends view (sink.RegistersHalfway source host s) s
      ((source.register (some host)).run s).1 ((source.register (some host)).run s).2 := by
  rcases hl : (source.load (some host)).run s with ⟨failure | exports, s₁⟩
  · rw [source.run_register_of_error host hl]
    refine .untouched ?_ (serves.fields_load hl)
    rintro ⟨exports, s₂, hok, -⟩
    cases hl.symm.trans hok
  · have ends := honest.ends_publish exports s₁
    rw [← serves.publish] at ends
    rw [source.run_register_of_ok host hl rfl]
    refine ends.map ⟨?_, ?_⟩ (serves.fields_load hl) _
    · rintro ⟨exports', s₂, hok, halfway⟩
      cases hl.symm.trans hok
      exact halfway
    · intro halfway
      exact ⟨exports, s₁, hl, halfway⟩

/-! ## The life of an object -/

/-- Both exports are attached, or neither. -/
def View.Paired (view : View σ β φ) (s : σ) : Prop :=
  view.Has (view.fields s) Exports.nameKey ↔ view.Has (view.fields s) Exports.handleKey

/-- Stopping halfway tears a pair only on an object without a handle: where one is, the new name
joins it. -/
theorem Ends.paired_iff {p : Prop} {answer : Except Failure α} (h : Ends view p s answer t)
    (hs : view.Paired s) :
    view.Paired t ↔ (p → view.Has (view.fields s) Exports.handleKey) := by
  have hkey : Exports.handleKey ≠ Exports.nameKey := by decide
  cases h with
  | untouched hn ht =>
    rw [View.Paired, ht]
    exact ⟨fun _ hp => absurd hp hn, fun _ => hs⟩
  | halfway hh ht =>
    rw [View.Paired, ht, view.has_put, view.has_put]
    simp [hkey, hh]
  | whole hn ht =>
    rw [View.Paired, ht]
    simp [view.has_put, hn]

/-- What happens in the life of an object: exports are published to it, directly or by registering,
or something happens elsewhere. -/
inductive Event (σ : Type) where
  | publish (exports : Exports)
  | register (source : Source (StateM σ)) (host : Host (StateM σ))
  | elsewhere (change : σ → σ)

namespace Event

def perform (sink : Sink (StateM σ) β) : Event σ → σ → σ
  | .publish exports, s => ((sink.publish exports).run s).2
  | .register source host, s => ((source.register (some host)).run s).2
  | .elsewhere change, s => change s

/-- The event does nothing to what is attached, apart from publishing. -/
def OnlyPublishes (sink : Sink (StateM σ) β) (view : View σ β φ) : Event σ → Prop
  | .publish _ => True
  | .register source host => sink.Serves view source host
  | .elsewhere change => ∀ s, view.fields (change s) = view.fields s

def StopsHalfway (sink : Sink (StateM σ) β) : Event σ → σ → Prop
  | .publish exports, s => sink.StopsHalfway exports s
  | .register source host, s => sink.RegistersHalfway source host s
  | .elsewhere _, _ => False

theorem paired_perform_iff (honest : sink.Honest view) {event : Event σ}
    (hc : event.OnlyPublishes sink view) (hs : view.Paired s) :
    view.Paired (event.perform sink s) ↔
      (event.StopsHalfway sink s → view.Has (view.fields s) Exports.handleKey) := by
  cases event with
  | publish exports => exact (honest.ends_publish exports s).paired_iff hs
  | register source host => exact (honest.ends_register hc s).paired_iff hs
  | elsewhere change =>
    rw [View.Paired, perform, hc s]
    exact ⟨fun _ => False.elim, fun _ => hs⟩

end Event

/-- The state after the first `n` of some events. -/
def after (sink : Sink (StateM σ) β) (events : List (Event σ)) (s : σ) (n : Nat) : σ :=
  (events.take n).foldl (fun s event => event.perform sink s) s

variable {events : List (Event σ)} {event : Event σ} {n : Nat}

theorem after_succ (he : events[n]? = some event) :
    sink.after events s (n + 1) = event.perform sink (sink.after events s n) := by
  rw [after, List.take_add_one, he, List.foldl_append]
  rfl

theorem after_succ_of_none (he : events[n]? = none) :
    sink.after events s (n + 1) = sink.after events s n := by
  rw [after, List.take_add_one, he, Option.toList_none, List.append_nil, after]

theorem paired_after_iff (honest : sink.Honest view)
    (hc : ∀ event ∈ events, event.OnlyPublishes sink view) (hs : view.Paired s) :
    (∀ n, view.Paired (sink.after events s n)) ↔
      ∀ n event, events[n]? = some event → event.StopsHalfway sink (sink.after events s n) →
        view.Has (view.fields (sink.after events s n)) Exports.handleKey := by
  constructor
  · intro hpaired n event he
    rw [← Event.paired_perform_iff honest (hc event (List.mem_of_getElem? he)) (hpaired n),
      ← after_succ he]
    exact hpaired (n + 1)
  · intro hhandle n
    induction n with
    | zero => exact hs
    | succ n ih =>
      cases he : events[n]? with
      | none =>
        rw [after_succ_of_none he]
        exact ih
      | some event =>
        rw [after_succ he, Event.paired_perform_iff honest (hc event (List.mem_of_getElem? he)) ih]
        exact hhandle n event he

end Sink

/-! ## Hosts that note every call -/

namespace SinkHost

/-- What is attached to the object of a host is a list, to which attaching appends. -/
def view : Sink.View SinkHost String (List (String × String)) where
  fields h := h.attached
  put key value f := f ++ [(key, value)]
  Has f key := key ∈ f.map Prod.fst
  has_put key value f other := by simp [or_comm]

theorem honest : sink.Honest view where
  createText hrun := by
    rw [run_createText] at hrun
    cases hrun
    exact List.append_nil _
  createReference hrun := by
    rw [run_createReference] at hrun
    cases hrun
    exact List.append_nil _
  refused {key value h t reason} hrun := by
    rw [run_attach] at hrun
    cases hr : h.reason? ⟨.attach, key⟩ with
    | none =>
      rw [answer_granted hr] at hrun
      cases hrun
    | some reason =>
      rw [answer_refused hr, hr] at hrun
      cases hrun
      exact List.append_nil _
  granted {key value h t} hrun := by
    rw [run_attach] at hrun
    cases hr : h.reason? ⟨.attach, key⟩ with
    | none =>
      rw [answer_granted hr, hr] at hrun
      cases hrun
      rfl
    | some reason =>
      rw [answer_refused hr] at hrun
      cases hrun

end SinkHost

/-! ## All or nothing -/

namespace Sink

variable {σ β φ : Type} {sink : Sink (StateM σ) β} {view : View σ β φ}

/-- Publishing and registering are all or nothing unless they stop halfway, which leaves the name
alone. So an object that starts with both exports or neither goes on like that in exactly those
lives in which everything that stops halfway finds a handle there. -/
theorem publication_whole_unless_halfway (honest : sink.Honest view) :
    (∀ exports s failure t, (sink.publish exports).run s = (.error failure, t) →
      (¬ sink.StopsHalfway exports s → view.fields t = view.fields s) ∧
      (sink.StopsHalfway exports s →
        (∃ reason, failure = .exportRejected Exports.handleKey reason) ∧
        ∃ name, view.fields t = view.put Exports.nameKey name (view.fields s))) ∧
    (∀ source host s failure t, sink.Serves view source host →
      (source.register (some host)).run s = (.error failure, t) →
      (¬ sink.RegistersHalfway source host s → view.fields t = view.fields s) ∧
      (sink.RegistersHalfway source host s →
        (∃ reason, failure = .exportRejected Exports.handleKey reason) ∧
        ∃ name, view.fields t = view.put Exports.nameKey name (view.fields s))) ∧
    ∀ events s, (∀ event ∈ events, event.OnlyPublishes sink view) → view.Paired s →
      ((∀ n, view.Paired (sink.after events s n)) ↔
        ∀ n event, events[n]? = some event → event.StopsHalfway sink (sink.after events s n) →
          view.Has (view.fields (sink.after events s n)) Exports.handleKey) := by
  refine ⟨?_, ?_, ?_⟩
  · intro exports s failure t h
    have ends := honest.ends_publish exports s
    rw [h] at ends
    exact ends.of_error
  · intro source host s failure t serves h
    have ends := honest.ends_register serves s
    rw [h] at ends
    exact ends.of_error
  · intro events s hc hs
    exact paired_after_iff honest hc hs

/-- A reference is refused before anything is attached, and an attached pair is published again when
the handle is refused. -/
theorem publication_whole_unless_halfway_refused :
    let exports : Exports := ⟨⟨0x1000, by decide⟩⟩
    let source : Source (StateM SinkHost) := ⟨"grammar", pure (.ok exports.handle)⟩
    let bare := SinkHost.new "object" true (some ⟨.createReference, none, "taken"⟩)
    let free := SinkHost.new "object" true none
    let events : List (Event SinkHost) := [.publish exports,
      .elsewhere fun h => { h with refusal := some ⟨.attach, some "language", "taken"⟩ },
      .register source SinkHost.host]
    SinkHost.sink.Honest SinkHost.view ∧
    SinkHost.sink.Serves SinkHost.view source SinkHost.host ∧
    ¬ SinkHost.sink.StopsHalfway exports bare ∧
    ((SinkHost.sink.publish exports).run bare).2.attached = [] ∧
    ((source.register (some SinkHost.host)).run bare).2.attached = [] ∧
    (SinkHost.sink.after events free 3).attached.map Prod.fst = ["name", "language", "name"] ∧
    ∀ n, SinkHost.view.Paired (SinkHost.sink.after events free n) := by
  intro exports source bare free events
  obtain ⟨publication, registration, life⟩ := publication_whole_unless_halfway SinkHost.honest
  have serves : SinkHost.sink.Serves SinkHost.view source SinkHost.host := by
    refine ⟨rfl, ?_, ?_, ?_⟩ <;>
    · intro s t answer h
      cases h
      rfl
  have hbare : ¬ SinkHost.sink.StopsHalfway exports bare := by
    rintro ⟨text, reference, -, -⟩
    cases text
    cases reference
  refine ⟨SinkHost.honest, serves, hbare, ?_, ?_, rfl, ?_⟩
  · exact (publication exports bare _ _ rfl).1 hbare
  · refine (registration source SinkHost.host bare _ _ serves rfl).1 ?_
    rintro ⟨exports', s₁, hload, halfway⟩
    cases hload
    exact hbare halfway
  · refine (life events free ?_ ?_).2 ?_
    · intro event he
      simp only [events, List.mem_cons, List.not_mem_nil, or_false] at he
      rcases he with rfl | rfl | rfl
      · trivial
      · exact fun _ => rfl
      · exact serves
    · simp [View.Paired, SinkHost.view, free, SinkHost.new]
    · intro n event he halfway
      rcases n with _ | _ | _ | n
      · cases he
        obtain ⟨text, reference, first, second⟩ := halfway
        cases text
        cases reference
        cases first
        cases second
      · cases he
        exact halfway.elim
      · -- this one stops halfway, and finds the handle of the first
        have hkeys : (SinkHost.sink.after events free 2).attached.map Prod.fst =
          ["name", "language"] := rfl
        change Exports.handleKey ∈ (SinkHost.sink.after events free 2).attached.map Prod.fst
        rw [hkeys]
        decide
      · cases he

/-- The handle is refused after the name was attached: registering fails with this refusal, and
leaves the name on an object that had nothing attached to it. -/
theorem refused_handle_leaves_name :
    let s := Session.opened [0x1000] [⟨"tree_sitter_abl", some 0⟩]
      [.sink "object" true (some ⟨.attach, some "language", "refused"⟩)]
    let ops := [.register 0 (some 0)]
    SinkHost.sink.Honest SinkHost.view ∧
    (s.run ops).map Prod.fst = [.record (.error (.exportRejected "language" "refused"))] ∧
    ∃ before left, s.hosts = [.sink before] ∧ (s.after ops 1).hosts = [.sink left] ∧
      before.attached = [] ∧ left.attached = [("name", "string abl")] ∧
      ¬ SinkHost.view.Paired left := by
  intro s ops
  have hname : ¬ (Exports.nameKey ∈ ["name"] ↔ Exports.handleKey ∈ ["name"]) := by decide
  exact ⟨SinkHost.honest, rfl, _, _, rfl, rfl, rfl, rfl, hname⟩

end Sink
end GrammarModule
