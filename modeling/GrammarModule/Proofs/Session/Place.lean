import GrammarModule.Proofs.Session.Step

/-!
# GrammarModule.Proofs.Session.Place

The places of a session that keep exports: hosts with a slot, and slots of their own. One step
leaves a place as it is, or makes it, empty or as a copy, or fills it when it was empty
(`Change`, `Step.change`).
-/

namespace GrammarModule

/-- A host with a slot or a slot of its own, by its number. -/
inductive Place where
  | host (index : Nat)
  | slot (index : Nat)
  deriving DecidableEq

/-- What is found at a place. -/
inductive Cell where
  | host (h : SlotHost)
  | slot (c : Slot)

namespace Cell

def content : Cell → Slot
  | .host h => h.slot
  | .slot c => c

/-- The same with the exports in it. -/
def filledWith (exports : Exports) : Cell → Cell
  | .host h => .host { h with slot := .filled exports }
  | .slot _ => .slot (.filled exports)

@[simp] theorem content_filledWith (exports : Exports) (c : Cell) :
    (c.filledWith exports).content = .filled exports := by cases c <;> rfl

end Cell

def SessionHost.cell? : SessionHost → Option Cell
  | .slot h => some (.host h)
  | .sink _ => none

/-- The place that an operation may fill. -/
def Operation.target? : Operation → Option Place
  | .register _ (some i) => some (.host i)
  | .publish i _ => some (.host i)
  | .fillSlot j _ => some (.slot j)
  | _ => none

/-- The place that an operation makes a copy of. -/
def Operation.original? : Operation → Option Place
  | .cloneHost i => some (.host i)
  | .copySlot j => some (.slot j)
  | _ => none

def Outcome.failure? : Outcome → Option Failure
  | .resolved _ (.error failure) => some failure
  | .record (.error failure) => some failure
  | .published (.error failure) => some failure
  | _ => none

namespace Session

variable {s t : Session} {op : Operation} {o : Outcome} {p q : Place} {i j : Nat}
  {h h' : SessionHost} {exports : Exports}

def cell? (s : Session) : Place → Option Cell
  | .host i => s.hosts[i]?.bind SessionHost.cell?
  | .slot j => s.slots[j]?.map .slot

theorem cell?_congr (hh : t.hosts = s.hosts) (hs : t.slots = s.slots) (p : Place) :
    t.cell? p = s.cell? p := by
  cases p with
  | host i => rw [cell?, cell?, hh]
  | slot j => rw [cell?, cell?, hs]

/-- The operation succeeds, and these are the exports that it returned or was given. -/
inductive Delivers (s : Session) (exports : Exports) : Operation → Outcome → Prop
  | register {n i : Nat} : Delivers s exports (.register n (some i)) (.record (.ok exports))
  | publish {i k : Nat} (hk : s.records[k]? = some exports) :
      Delivers s exports (.publish i k) (.published (.ok ()))
  | fillSlot {j k : Nat} (hk : s.records[k]? = some exports) :
      Delivers s exports (.fillSlot j k) (.published (.ok ()))

theorem Delivers.unique {exports' : Exports} (h : s.Delivers exports op o)
    (h' : s.Delivers exports' op o) : exports = exports' := by
  cases h with
  | register =>
    cases h'
    rfl
  | publish hk =>
    cases h' with
    | publish hk' => exact Option.some.inj (hk.symm.trans hk')
  | fillSlot hk =>
    cases h' with
    | fillSlot hk' => exact Option.some.inj (hk.symm.trans hk')

/-- The operation gets as far as offering exports to the place. -/
inductive Reaches (s : Session) : Operation → Place → Prop
  | register {n i : Nat} {e : Entry} {h : SessionHost} {handle : Handle}
      (he : s.entries[n]? = some e) (hh : s.hosts[i]? = some h) (hu : h.usable = true)
      (ha : s.answer e = .ok handle) : Reaches s (.register n (some i)) (.host i)
  | publish {i k : Nat} {h : SessionHost} {exports : Exports} (hh : s.hosts[i]? = some h)
      (hk : s.records[k]? = some exports) : Reaches s (.publish i k) (.host i)
  | fillSlot {j k : Nat} {c : Slot} {exports : Exports} (hj : s.slots[j]? = some c)
      (hk : s.records[k]? = some exports) : Reaches s (.fillSlot j k) (.slot j)

/-- What a step does at a place. -/
inductive Change (s : Session) (op : Operation) (o : Outcome) (t : Session) (p : Place) : Prop
  | kept (ht : t.cell? p = s.cell? p)
  | made (hop : op = .newSlot) (hs : s.cell? p = none) (ht : t.cell? p = some (.slot .empty))
  | copied {q : Place} {c : Cell} (hop : op.original? = some q) (hs : s.cell? p = none)
      (hq : s.cell? q = some c) (ht : t.cell? p = some c)
  | filled {c : Cell} {exports : Exports} (hop : op.target? = some p)
      (hd : s.Delivers exports op o) (hs : s.cell? p = some c) (he : c.content = .empty)
      (ht : t.cell? p = some (c.filledWith exports))

/-! ## Publications -/

theorem publish_slot_empty {m : SlotHost} (he : m.slot = .empty) (exports : Exports) :
    (SessionHost.slot m).publish exports =
      (.ok (), .slot { m with slot := .filled exports }) := by
  simp only [SessionHost.publish, SlotHost.publish, StateT.run, he, Slot.fill]
  rfl

theorem publish_slot_filled {m : SlotHost} {existing : Exports} (hm : m.slot = .filled existing)
    (exports : Exports) : (SessionHost.slot m).publish exports =
      (.error (.alreadyRegistered existing.name), .slot m) := by
  simp only [SessionHost.publish, SlotHost.publish, StateT.run, hm, Slot.fill]
  rfl

theorem cell?_withHost_ne (hp : p ≠ .host i) : (s.withHost i h).cell? p = s.cell? p := by
  cases p with
  | host j =>
    have hij : i ≠ j := by
      rintro rfl
      exact hp rfl
    rw [cell?, cell?, withHost, List.getElem?_set_ne hij]
  | slot j => rfl

theorem cell?_withHost_self (hh : s.hosts[i]? = some h) :
    (s.withHost i h').cell? (.host i) = h'.cell? := by
  obtain ⟨hi, -⟩ := List.getElem?_eq_some_iff.1 hh
  rw [cell?, withHost, List.getElem?_set_self hi, Option.bind_some]

/-- A publication fills the slot of its host if that was empty, and no other place. -/
theorem publish_cases {answer : Except Failure Unit} (hh : s.hosts[i]? = some h)
    (hp : h.publish exports = (answer, h')) (p : Place) :
    (s.withHost i h').cell? p = s.cell? p ∨
      p = .host i ∧ answer = .ok () ∧ ∃ c, s.cell? p = some c ∧ c.content = .empty ∧
        (s.withHost i h').cell? p = some (c.filledWith exports) := by
  by_cases hpi : p = .host i
  · subst hpi
    have hcell : s.cell? (.host i) = h.cell? := by rw [cell?, hh, Option.bind_some]
    rw [cell?_withHost_self hh, hcell]
    cases h with
    | sink m =>
      left
      cases hp
      rfl
    | slot m =>
      cases hm : m.slot with
      | empty =>
        right
        rw [publish_slot_empty hm] at hp
        cases hp
        exact ⟨rfl, rfl, .host m, rfl, hm, rfl⟩
      | filled existing =>
        left
        rw [publish_slot_filled hm] at hp
        cases hp
        rfl
  · exact .inl (cell?_withHost_ne hpi)

/-! ## New places -/

theorem getElem?_concat_cases {α : Type} (l : List α) (a : α) (n : Nat) :
    (l ++ [a])[n]? = l[n]? ∨ l[n]? = none ∧ (l ++ [a])[n]? = some a := by
  by_cases hn : n < l.length
  · left
    exact List.getElem?_append_left hn
  · have hnone : l[n]? = none := List.getElem?_eq_none_iff.2 (by omega)
    rw [List.getElem?_append_right (by omega), hnone]
    cases hlast : n - l.length with
    | zero => exact .inr ⟨rfl, rfl⟩
    | succ k => exact .inl rfl

theorem cell?_append_host (s : Session) (h : SessionHost) (p : Place) :
    { s with hosts := s.hosts ++ [h] }.cell? p = s.cell? p ∨
      s.cell? p = none ∧ { s with hosts := s.hosts ++ [h] }.cell? p = h.cell? := by
  cases p with
  | slot j => exact .inl rfl
  | host j =>
    simp only [cell?]
    rcases getElem?_concat_cases s.hosts h j with hold | ⟨hnone, hnew⟩
    · left
      rw [hold]
    · right
      rw [hnone, hnew]
      exact ⟨rfl, rfl⟩

theorem cell?_append_slot (s : Session) (c : Slot) (p : Place) :
    { s with slots := s.slots ++ [c] }.cell? p = s.cell? p ∨
      s.cell? p = none ∧ { s with slots := s.slots ++ [c] }.cell? p = some (.slot c) := by
  cases p with
  | host i => exact .inl rfl
  | slot j =>
    simp only [cell?]
    rcases getElem?_concat_cases s.slots c j with hold | ⟨hnone, hnew⟩
    · left
      rw [hold]
    · right
      rw [hnone, hnew]
      exact ⟨rfl, rfl⟩

/-! ## One step -/

theorem fill_eq_ok_iff {c c' : Slot} :
    c.fill exports = .ok c' ↔ c = .empty ∧ c' = .filled exports := by
  cases c with
  | empty => simp [Slot.fill, eq_comm]
  | filled existing => simp [Slot.fill]

theorem cell?_sink {m : SinkHost} (hh : s.hosts[i]? = some (.sink m)) (m' : SinkHost) (p : Place) :
    (s.withHost i (.sink m')).cell? p = s.cell? p := by
  by_cases hp : p = .host i
  · subst hp
    rw [cell?_withHost_self hh, cell?, hh, Option.bind_some]
    rfl
  · exact cell?_withHost_ne hp

theorem cell?_set_slot {c c' : Slot} (hj : s.slots[j]? = some c) :
    { s with slots := s.slots.set j c' }.cell? (.slot j) = some (.slot c') := by
  obtain ⟨hlt, -⟩ := List.getElem?_eq_some_iff.1 hj
  rw [cell?, List.getElem?_set_self hlt]
  rfl

theorem Step.change (h : Step s op o t) (p : Place) : Change s op o t p := by
  cases h with
  | absent | loadRefused | registerRefused | ignored | compare | fillSlotRefused | compareSlots
    | inspect => exact .kept rfl
  | resolve | registerUnresolved => exact .kept (cell?_congr (by simp) (by simp) p)
  | load => exact .kept (cell?_congr (by simp) (by simp) p)
  | copyEntry | setAddress => exact .kept (cell?_congr rfl rfl p)
  | @register n i e h h' handle answer he hh hu ha hp =>
    -- the call and the record that is kept change no place
    have hs := cell?_congr (s.called_hosts (e := e)) s.called_slots p
    have ht := cell?_congr (keeping_hosts ((s.called e).withHost i h') _)
      (keeping_slots _ (answer.map fun _ => ⟨handle⟩)) p
    rcases publish_cases (s.called_hosts (e := e) ▸ hh) hp p with hkept | ⟨rfl, rfl, c, hc, he, hf⟩
    · exact .kept (ht.trans (hkept.trans hs))
    · exact .filled rfl .register (hs ▸ hc) he (ht.trans hf)
  | publish hh hk hp =>
    rcases publish_cases hh hp p with hkept | ⟨rfl, rfl, c, hc, he, ht⟩
    · exact .kept hkept
    · exact .filled rfl (.publish hk) hc he ht
  | @cloneHost i h hh =>
    rcases cell?_append_host s h p with hkept | ⟨hs, ht⟩
    · exact .kept hkept
    · cases hc : h.cell? with
      | none => exact .kept (ht.trans (hc.trans hs.symm))
      | some c => exact .copied rfl hs (by rw [cell?, hh, Option.bind_some, hc]) (ht.trans hc)
  | setRefusal hh | setUsable hh => exact .kept (cell?_sink hh _ p)
  | newSlot =>
    rcases cell?_append_slot s .empty p with hkept | ⟨hs, ht⟩
    · exact .kept hkept
    · exact .made rfl hs ht
  | @copySlot j c hj =>
    rcases cell?_append_slot s c p with hkept | ⟨hs, ht⟩
    · exact .kept hkept
    · exact .copied rfl hs (by rw [cell?, hj, Option.map_some]) ht
  | @fillSlot j k c c' exports hj hk hf =>
    obtain ⟨rfl, rfl⟩ := fill_eq_ok_iff.1 hf
    cases p with
    | host i => exact .kept rfl
    | slot n =>
      by_cases hn : j = n
      · subst hn
        have hs : s.cell? (.slot j) = some (.slot .empty) := by rw [cell?, hj, Option.map_some]
        exact .filled rfl (.fillSlot hk) hs rfl (cell?_set_slot hj)
      · refine .kept ?_
        rw [cell?, cell?, List.getElem?_set_ne hn]

/-- A place stays as it is in every step that does not aim at it. -/
theorem Step.cell?_eq_of_ne {c : Cell} (h : Step s op o t) (hc : s.cell? p = some c)
    (hp : op.target? ≠ some p) : t.cell? p = some c := by
  cases h.change p with
  | kept ht => rw [ht, hc]
  | made _ hs | copied _ hs =>
    rw [hs] at hc
    cases hc
  | filled hop => exact absurd hop hp

/-- A failed step changes no place, and no record. -/
theorem Step.eq_of_failure {failure : Failure} (h : Step s op o t)
    (ho : o.failure? = some failure) :
    (∀ p, t.cell? p = s.cell? p) ∧ t.records = s.records := by
  constructor
  · intro p
    cases h.change p with
    | kept ht => exact ht
    | made hop =>
      subst hop
      cases h with
      | absent | newSlot => cases ho
      | ignored hi => exact hi.elim
    | copied hop =>
      cases h with
      | absent | ignored | cloneHost | copySlot => cases ho
      | _ => cases hop
    | filled _ hd => cases hd <;> cases ho
  · cases h with
    | resolve | registerUnresolved => exact called_records
    | @load n i e =>
      cases ha : s.answer e with
      | error => exact called_records
      | ok =>
        rw [ha] at ho
        cases ho
    | @register n i e h h' handle answer =>
      cases answer with
      | error => exact called_records
      | ok => cases ho
    | _ => rfl

theorem slot_of_cell? {c : Cell} (hh : s.hosts[i]? = some h) (hc : s.cell? (.host i) = some c) :
    ∃ m, h = .slot m ∧ c = .host m := by
  rw [cell?, hh, Option.bind_some] at hc
  cases h with
  | slot m =>
    cases hc
    exact ⟨m, rfl, rfl⟩
  | sink m => cases hc

/-- An empty place takes what is offered to it, and a taken one refuses it with the name that it
holds. -/
theorem Step.of_reaches {c : Cell} (h : Step s op o t) (hr : s.Reaches op p)
    (hc : s.cell? p = some c) :
    (c.content = .empty ∧
      ∃ exports, s.Delivers exports op o ∧ t.cell? p = some (c.filledWith exports)) ∨
    ∃ existing, c.content = .filled existing ∧
      o.failure? = some (.alreadyRegistered existing.name) := by
  cases hr with
  | @register n i e _ _ hentry hh hu ha =>
    obtain ⟨rfl, rfl⟩ := h.of_register hentry hh hu ha
    obtain ⟨m, rfl, rfl⟩ := slot_of_cell? hh hc
    cases hm : m.slot with
    | empty =>
      rw [publish_slot_empty hm]
      refine .inl ⟨hm, _, .register, ?_⟩
      rw [← called_hosts (e := e)] at hh
      exact cell?_withHost_self hh
    | filled existing =>
      rw [publish_slot_filled hm]
      exact .inr ⟨existing, hm, rfl⟩
  | publish hh hk =>
    obtain ⟨rfl, rfl⟩ := h.of_publish hh hk
    obtain ⟨m, rfl, rfl⟩ := slot_of_cell? hh hc
    cases hm : m.slot with
    | empty =>
      rw [publish_slot_empty hm]
      exact .inl ⟨hm, _, .publish hk, cell?_withHost_self hh⟩
    | filled existing =>
      rw [publish_slot_filled hm]
      exact .inr ⟨existing, hm, rfl⟩
  | @fillSlot j k content _ hj hk =>
    rw [cell?, hj] at hc
    cases hc
    cases h with
    | absent hl =>
      rw [Lacks, hj, hk] at hl
      rcases hl with hl | hl <;> cases hl
    | ignored hi => exact hi.elim
    | fillSlot hj' hk' hf =>
      rw [hj] at hj'
      cases hj'
      obtain ⟨rfl, rfl⟩ := fill_eq_ok_iff.1 hf
      exact .inl ⟨rfl, _, .fillSlot hk', cell?_set_slot hj⟩
    | fillSlotRefused hj' _ hf =>
      rw [hj] at hj'
      cases hj'
      cases content with
      | empty => cases hf
      | filled existing =>
        cases hf
        exact .inr ⟨existing, rfl, rfl⟩

/-- An operation that succeeds in delivering has got as far as the place that it aims at. -/
theorem Step.reaches (h : Step s op o t) (hp : op.target? = some p)
    (hd : s.Delivers exports op o) : s.Reaches op p := by
  cases h with
  | register hentry hh hu ha =>
    cases hp
    exact .register hentry hh hu ha
  | publish hh hk =>
    cases hp
    exact .publish hh hk
  | fillSlot hj hk =>
    cases hp
    exact .fillSlot hj hk
  | absent => cases hd
  | ignored => cases hd
  | registerRefused => cases hd
  | registerUnresolved => cases hd
  | fillSlotRefused => cases hd
  | _ => cases hp

/-- A place that a successful operation aims at was empty, and has the exports now. -/
theorem Step.filled {c : Cell} (h : Step s op o t) (hp : op.target? = some p)
    (hd : s.Delivers exports op o) (hc : s.cell? p = some c) :
    c.content = .empty ∧ t.cell? p = some (c.filledWith exports) := by
  rcases h.of_reaches (h.reaches hp hd) hc with ⟨he, exports', hd', ht⟩ | ⟨existing, -, hf⟩
  · rw [hd.unique hd']
    exact ⟨he, ht⟩
  · cases hd <;> cases hf

end Session
end GrammarModule
