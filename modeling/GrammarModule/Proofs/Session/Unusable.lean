import GrammarModule.Proofs.Session.Calls

/-!
# GrammarModule.Proofs.Session.Unusable

Hosts with a slot that are not usable. Loading and registering ask whether a host is usable, and
refuse one that is not; a direct publication does not ask, and fills its slot. So the hosts that are
not usable refuse all exports in exactly those runs in which nothing is published to them directly:
`refuses_exports_iff`. `unusable_host_takes_exports` is a run in which one of them is filled.
-/

namespace GrammarModule
namespace Session

variable {s t : Session} {ops : List Operation} {op : Operation} {o : Outcome} {i j k n : Nat}
  {h : SlotHost} {exports : Exports}

/-- No host that is not usable has exports. -/
def Barred (s : Session) : Prop :=
  ∀ (i : Nat) (h : SlotHost), s.hosts[i]? = some (.slot h) → h.usable = false → h.slot = .empty

/-- The operation publishes a record directly to a host that is not usable. -/
inductive Forces (s : Session) : Operation → Prop
  | publish {i k : Nat} {h : SlotHost} {exports : Exports} (hh : s.hosts[i]? = some (.slot h))
      (hu : h.usable = false) (hk : s.records[k]? = some exports) : Forces s (.publish i k)

/-- In a run, the hosts that are not usable have no exports, and everything that would register
with them or publish to them fails. -/
structure RefusesExports (s : Session) (ops : List Operation) : Prop where
  barred : ∀ n, (s.after ops n).Barred
  fails : ∀ n op o t i h, ops[n]? = some op → (s.run ops)[n]? = some (o, t) →
    op.target? = some (.host i) → ¬ (s.after ops n).Lacks op →
    (s.after ops n).hosts[i]? = some (.slot h) → h.usable = false →
    ∃ failure, o.failure? = some failure

theorem cell?_host_eq_some_iff {c : Cell} :
    s.cell? (.host i) = some c ↔ ∃ h, s.hosts[i]? = some (.slot h) ∧ c = .host h := by
  rw [cell?, Option.bind_eq_some_iff]
  constructor
  · rintro ⟨x, hx, hc⟩
    cases x with
    | sink => cases hc
    | slot h =>
      cases hc
      exact ⟨h, hx, rfl⟩
  · rintro ⟨h, hh, rfl⟩
    exact ⟨.slot h, hh, rfl⟩

theorem cell?_of_slot (hh : s.hosts[i]? = some (.slot h)) : s.cell? (.host i) = some (.host h) :=
  cell?_host_eq_some_iff.2 ⟨h, hh, rfl⟩

theorem barred_opened (addresses : List UInt64) (entries : List Entry) (hosts : List NewHost) :
    (opened addresses entries hosts).Barred :=
  fun _ _ hh _ => empty_of_opened (cell?_of_slot hh)

/-! ## One step -/

theorem obstacle?_of_unusable (hh : s.hosts[i]? = some (.slot h)) (hu : h.usable = false) :
    s.obstacle? (some i) = some (Source.hostUnusable h.description) := by
  rw [obstacle?, Option.bind_some, hh]
  exact if_neg (by simp [SessionHost.usable, hu])

/-- An attempt on a host that is not usable names the host, and changes nothing. -/
theorem run_perform_of_unusable {e : Entry}
    (hop : op = .load j (some i) ∨ op = .register j (some i)) (he : s.entries[j]? = some e)
    (hh : s.hosts[i]? = some (.slot h)) (hu : h.usable = false) :
    (perform op).run s = (.record (.error (Source.hostUnusable h.description)), s) := by
  have hf := obstacle?_of_unusable hh hu
  rcases hop with rfl | rfl
  · exact run_perform_load he (run_load_of_obstacle hf e)
  · exact run_perform_register he (run_register_of_obstacle hf e)

theorem run_perform_publish_empty (hh : s.hosts[i]? = some (.slot h))
    (hk : s.records[k]? = some exports) (he : h.slot = .empty) :
    (perform (.publish i k)).run s =
      (.published (.ok ()), s.withHost i (.slot { h with slot := .filled exports })) := by
  rw [run_perform_publish hh hk, publish_slot_empty he]

/-- A host with a slot keeps its name, and stays as usable as it is. -/
theorem Step.slotHost (hs : Step s op o t) (hh : s.hosts[i]? = some (.slot h)) :
    ∃ h', t.hosts[i]? = some (.slot h') ∧ h'.label = h.label ∧ h'.usable = h.usable := by
  have hcell := cell?_of_slot hh
  cases hs.change (.host i) with
  | kept ht =>
    obtain ⟨h', hh', hc⟩ := cell?_host_eq_some_iff.1 (ht.trans hcell)
    cases hc
    exact ⟨h, hh', rfl, rfl⟩
  | made _ hnone | copied _ hnone =>
    rw [hnone] at hcell
    cases hcell
  | filled _ _ hold _ ht =>
    rw [hcell] at hold
    cases hold
    obtain ⟨h', hh', hc⟩ := cell?_host_eq_some_iff.1 ht
    cases hc
    exact ⟨_, hh', rfl, rfl⟩

/-- Only a direct publication puts anything into a host that is not usable. -/
theorem Step.barred (hs : Step s op o t) (hb : s.Barred) (hn : ¬ s.Forces op) : t.Barred := by
  intro i h hh hu
  have hcell := cell?_of_slot hh
  cases hs.change (.host i) with
  | kept ht =>
    rw [ht] at hcell
    obtain ⟨h', hh', hc⟩ := cell?_host_eq_some_iff.1 hcell
    cases hc
    exact hb i h hh' hu
  | made _ _ ht =>
    rw [ht] at hcell
    cases hcell
  | @copied q c hq _ hcopy ht =>
    rw [ht] at hcell
    cases hcell
    cases q with
    | host j =>
      obtain ⟨h', hh', hc⟩ := cell?_host_eq_some_iff.1 hcopy
      cases hc
      exact hb j h hh' hu
    | slot j =>
      obtain ⟨content, -, hc⟩ := Option.map_eq_some_iff.1 hcopy
      cases hc
  | filled hp hd hold _ ht =>
    obtain ⟨h', hh', rfl⟩ := cell?_host_eq_some_iff.1 hold
    rw [ht] at hcell
    cases hcell
    cases hs.reaches hp hd with
    | register _ hx husable =>
      rw [hh'] at hx
      cases hx
      exact absurd (hu.symm.trans husable) Bool.false_ne_true
    | publish _ hk => exact absurd (.publish hh' hu hk) hn

/-- What is directed at a host that is not usable fails, unless it is a direct publication. -/
theorem Step.failure_of_unusable (hs : Step s op o t) (hp : op.target? = some (.host i))
    (hl : ¬ s.Lacks op) (hh : s.hosts[i]? = some (.slot h)) (hu : h.usable = false)
    (hn : ¬ s.Forces op) : ∃ failure, o.failure? = some failure := by
  cases hs with
  | absent h => exact absurd h hl
  | @ignored op hi =>
    cases op with
    | setAddress | setRefusal | setUsable => cases hp
    | _ => exact hi.elim
  | registerRefused | registerUnresolved => exact ⟨_, rfl⟩
  | register _ hx husable =>
    cases hp
    rw [hh] at hx
    cases hx
    exact absurd (hu.symm.trans husable) Bool.false_ne_true
  | publish _ hk =>
    cases hp
    exact absurd (.publish hh hu hk) hn
  | _ => cases hp

/-! ## Runs -/

theorem slotHost_after {m : Nat} (hh : (s.after ops n).hosts[i]? = some (.slot h)) (hm : n ≤ m) :
    ∃ h', (s.after ops m).hosts[i]? = some (.slot h') ∧ h'.label = h.label ∧
      h'.usable = h.usable := by
  refine lasts_after (P := fun t => ∃ h', t.hosts[i]? = some (.slot h') ∧
    h'.label = h.label ∧ h'.usable = h.usable) hm ⟨h, hh, rfl, rfl⟩ ?_
  rintro k op o - hstep ⟨h', hh', hlabel, husable⟩
  obtain ⟨h'', hh'', hlabel', husable'⟩ := hstep.slotHost hh'
  exact ⟨h'', hh'', hlabel'.trans hlabel, husable'.trans husable⟩

theorem barred_after (hb : s.Barred)
    (hn : ∀ n op, ops[n]? = some op → ¬ (s.after ops n).Forces op) (n : Nat) :
    (s.after ops n).Barred := by
  refine lasts_after n.zero_le hb ?_
  intro k op o hop hstep ih
  exact hstep.barred ih (hn k op hop)

theorem refusesExports_of_not_forces (hb : s.Barred)
    (hn : ∀ n op, ops[n]? = some op → ¬ (s.after ops n).Forces op) : s.RefusesExports ops where
  barred := barred_after hb hn
  fails := by
    intro n op o t i h hop hrun hp hl hh hu
    obtain ⟨hstep, -⟩ := step_of_run hop hrun
    exact hstep.failure_of_unusable hp hl hh hu (hn n op hop)

theorem RefusesExports.not_forces (hr : s.RefusesExports ops) (hop : ops[n]? = some op) :
    ¬ (s.after ops n).Forces op := by
  intro hforces
  cases hforces with
  | @publish i k h exports hh hu hk =>
    have hempty := hr.barred n i h hh hu
    have hrun := getElem?_run s ops n
    rw [hop, Option.map_some, run_perform_publish_empty hh hk hempty] at hrun
    have hhas : ¬ (s.after ops n).Lacks (.publish i k) := by
      rw [Lacks, hh, hk]
      simp
    obtain ⟨failure, hf⟩ := hr.fails n _ _ _ i h hop hrun rfl hhas hh hu
    cases hf

/-- The hosts that are not usable refuse all exports in exactly those runs in which no record is
published to one of them directly. Loading for such a host and registering with it fail with its
description and change nothing; a direct publication to an empty host succeeds and fills it, usable
or not. A host stays as usable as it was made, and so does a copy of it. -/
theorem refuses_exports_iff (addresses : List UInt64) (entries : List Entry)
    (hosts : List NewHost) (ops : List Operation) :
    let s := opened addresses entries hosts
    (s.RefusesExports ops ↔ ∀ n op, ops[n]? = some op → ¬ (s.after ops n).Forces op) ∧
    (∀ n op i j h e, ops[n]? = some op → op = .load j (some i) ∨ op = .register j (some i) →
      (s.after ops n).entries[j]? = some e → (s.after ops n).hosts[i]? = some (.slot h) →
      h.usable = false → (s.run ops)[n]? =
        some (.record (.error (Source.hostUnusable h.description)), s.after ops n)) ∧
    (∀ n i k h exports, ops[n]? = some (.publish i k) →
      (s.after ops n).hosts[i]? = some (.slot h) → (s.after ops n).records[k]? = some exports →
      h.slot = .empty → (s.run ops)[n]? = some (.published (.ok ()),
        (s.after ops n).withHost i (.slot { h with slot := .filled exports }))) ∧
    (∀ (n m i : Nat) (h : SlotHost), n ≤ m → (s.after ops n).hosts[i]? = some (.slot h) →
      ∃ h', (s.after ops m).hosts[i]? = some (.slot h') ∧ h'.label = h.label ∧
        h'.usable = h.usable) ∧
    ∀ n i h, ops[n]? = some (.cloneHost i) → (s.after ops n).hosts[i]? = some (.slot h) →
      (s.after ops (n + 1)).hosts = (s.after ops n).hosts ++ [.slot h] := by
  intro s
  refine ⟨⟨?_, ?_⟩, ?_, ?_, ?_, ?_⟩
  · intro hr n op hop
    exact hr.not_forces hop
  · intro hn
    exact refusesExports_of_not_forces (barred_opened addresses entries hosts) hn
  · intro n op i j h e hop hattempt he hh hu
    rw [getElem?_run, hop, Option.map_some, run_perform_of_unusable hattempt he hh hu]
  · intro n i k h exports hop hh hk hempty
    rw [getElem?_run, hop, Option.map_some, run_perform_publish_empty hh hk hempty]
  · intro n m i h hm hh
    exact slotHost_after hh hm
  · intro n i h hop hh
    obtain ⟨o, -, hstep⟩ := step_after (s := s) hop
    rw [hstep.of_cloneHost hh]

/-- A record that was loaded for a usable host is published to one that is not: this succeeds, and
the host holds the record. -/
theorem unusable_host_takes_exports :
    let s := opened [0x1000] [⟨"tree_sitter_abl", some 0⟩] [.slot "main" true, .slot "gone" false]
    let ops := [.load 0 (some 0), .publish 1 0]
    (s.after ops 1).hosts[1]? = some (.slot (.unusable "gone")) ∧
    (s.run ops)[1]? = some (.published (.ok ()), s.after ops 2) ∧
    (s.after ops 2).hosts[1]? =
      some (.slot { SlotHost.unusable "gone" with slot := .filled ⟨⟨0x1000, by decide⟩⟩ }) ∧
    ¬ s.RefusesExports ops := by
  intro s ops
  have hhost : (s.after ops 1).hosts[1]? = some (.slot (.unusable "gone")) := rfl
  have hrecord : (s.after ops 1).records[0]? = some ⟨⟨0x1000, by decide⟩⟩ := rfl
  refine ⟨hhost, rfl, rfl, ?_⟩
  intro hr
  have hop : ops[1]? = some (.publish 1 0) := rfl
  exact hr.not_forces hop (.publish hhost rfl hrecord)

end Session
end GrammarModule
