import GrammarModule.Proofs.Session.Calls
import GrammarModule.Proofs.Session.FirstObstacle

/-!
# GrammarModule.Proofs.Session.Provenance

Where the exports in a session come from. A session has exports at spots: among its records, and in
the places of hosts and slots. What is at a spot can be followed back to the one operation that
created it (`Origin`), which asked the function of an entry for the address (`Creates`), and what
is at a spot stays there. `records_have_origin` states this for every run from an opened session.
-/

namespace GrammarModule

/-- Where a session can have exports: under the number of a record, or at a place. -/
inductive Spot where
  | record (index : Nat)
  | place (p : Place)

/-- The record that an operation offers to a place. -/
def Operation.record? : Operation → Option Nat
  | .publish _ record | .fillSlot _ record => some record
  | _ => none

/-- The exports of the language: its name, both items in their order, and an address. -/
structure Exports.Complete (exports : Exports) : Prop where
  name : exports.name = "abl"
  items : exports.items = [("name", .text "abl"), ("language", .handle exports.handle)]
  address : exports.handle.address ≠ 0

theorem Exports.complete (exports : Exports) : exports.Complete :=
  ⟨rfl, rfl, exports.handle.address_ne⟩

namespace Session

variable {s t : Session} {ops : List Operation} {op : Operation} {o : Outcome} {m n j : Nat}
  {e : Entry} {p : Place} {spot : Spot} {exports : Exports}

/-- The exports at a spot. -/
def found? (s : Session) : Spot → Option Exports
  | .record r => s.records[r]?
  | .place p => (s.cell? p).bind fun c => c.content.exports?

/-- Operation `m` of a run creates the exports: it loads or registers through an entry with a
function, calls this function once, and returns exports with the address that the function gives
then. -/
inductive Creates (s : Session) (ops : List Operation) (m : Nat) (exports : Exports) : Prop
  | intro {op : Operation} {n k : Nat} {e : Entry} {f : LanguageFunction}
      (hop : ops[m]? = some op) (through : op.through? = some n)
      (entry : (s.after ops m).entries[n]? = some e) (function : e.function? = some k)
      (gives : (s.after ops m).functions[k]? = some f)
      (address : exports.handle.address = f.address)
      (called : (s.after ops (m + 1)).calls k = (s.after ops m).calls k + 1)
      (returned : (s.run ops)[m]? = some (.record (.ok exports), s.after ops (m + 1)))

/-- The exports at a spot, after so many operations, are those that operation `m` created: it kept
them as a record, or filled the place with them, or they have been brought to the spot since. -/
inductive Origin (s : Session) (ops : List Operation) (m : Nat) (exports : Exports) :
    Nat → Spot → Prop
  | kept (creates : Creates s ops m exports)
      (now : (s.after ops (m + 1)).found? (.record (s.after ops m).records.length) = some exports) :
      Origin s ops m exports (m + 1) (.record (s.after ops m).records.length)
  | registered {n i : Nat} (creates : Creates s ops m exports)
      (hop : ops[m]? = some (.register n (some i)))
      (now : (s.after ops (m + 1)).found? (.place (.host i)) = some exports) :
      Origin s ops m exports (m + 1) (.place (.host i))
  | stayed {n : Nat} {spot : Spot} (origin : Origin s ops m exports n spot)
      (now : (s.after ops (n + 1)).found? spot = some exports) :
      Origin s ops m exports (n + 1) spot
  | given {n r : Nat} {p : Place} {op : Operation} (origin : Origin s ops m exports n (.record r))
      (hop : ops[n]? = some op) (record : op.record? = some r) (target : op.target? = some p)
      (now : (s.after ops (n + 1)).found? (.place p) = some exports) :
      Origin s ops m exports (n + 1) (.place p)
  | copied {n : Nat} {p q : Place} {op : Operation}
      (origin : Origin s ops m exports n (.place q)) (hop : ops[n]? = some op)
      (original : op.original? = some q)
      (now : (s.after ops (n + 1)).found? (.place p) = some exports) :
      Origin s ops m exports (n + 1) (.place p)

theorem found?_place_eq_some_iff :
    s.found? (.place p) = some exports ↔ ∃ c, s.cell? p = some c ∧ c.content = .filled exports := by
  rw [found?, Option.bind_eq_some_iff]
  constructor
  · rintro ⟨c, hc, he⟩
    refine ⟨c, hc, ?_⟩
    cases hcontent : c.content <;> rw [hcontent] at he <;> cases he
    rfl
  · rintro ⟨c, hc, he⟩
    exact ⟨c, hc, by rw [he]; rfl⟩

/-! ## What a step creates -/

theorem Step.records (h : Step s op o t) : t.records = s.records ++ o.exports?.toList := by
  cases h with
  | @load n i e h he =>
    cases s.answer e <;> simp [keeping, Outcome.exports?, Except.map]
  | @register n i e h h' handle answer =>
    cases answer <;> simp [keeping, withHost, Outcome.exports?, Except.map]
  | _ => simp [withHost, Outcome.exports?]

theorem Step.attempts_of_exports {k : Nat} (h : Step s op o t) (ho : o.exports? = some exports)
    (hn : op.through? = some n) (hk : s.function? n = some k) : s.attempts k op = true := by
  cases h with
  | load he hh hu | register he hh hu =>
    cases hn
    simp [attempts, hk, accepts_of_usable hh hu]
  | _ => cases ho

theorem exists_function_of_handle? {handle : Handle} (h : s.handle? e = some handle) :
    ∃ k f, e.function? = some k ∧ s.functions[k]? = some f ∧ handle.address = f.address := by
  obtain ⟨f, hf, haddress⟩ := Option.bind_eq_some_iff.1 h
  obtain ⟨k, hk, hf⟩ := Option.bind_eq_some_iff.1 hf
  exact ⟨k, f, hk, hf, Handle.ofAddress?_eq_some_iff.1 haddress⟩

theorem creates_of_exports (hop : ops[m]? = some op)
    (hrun : (s.run ops)[m]? = some (o, s.after ops (m + 1))) (ho : o.exports? = some exports) :
    Creates s ops m exports := by
  obtain ⟨hstep, -⟩ := step_of_run hop hrun
  obtain ⟨n, e, hn, he, hhandle⟩ := hstep.handle?_of_exports ho
  obtain ⟨k, f, hk, hf, haddress⟩ := exists_function_of_handle? hhandle
  have hasked := hstep.attempts_of_exports ho hn ((function?_eq he).trans hk)
  obtain ⟨hlt, -⟩ := List.getElem?_eq_some_iff.1 hf
  have hcalls := hstep.calls k
  rw [if_pos ⟨.inr hasked, hlt⟩] at hcalls
  have hreturned : o = .record (.ok exports) := by
    cases o with
    | record result =>
      cases result <;> cases ho
      rfl
    | _ => cases ho
  exact .intro hop hn he hk hf haddress hcalls (hreturned ▸ hrun)

theorem handle?_of_unavailable (h : s.Unavailable e) : s.handle? e = none := by
  cases hh : s.handle? e with
  | none => rfl
  | some handle =>
    obtain ⟨k, f, hk, hf, haddress⟩ := exists_function_of_handle? hh
    exact absurd (haddress.trans (h k f hk hf)) handle.address_ne

/-- Through an entry that has no handle to give, nothing is created. -/
theorem Step.failure_of_unavailable (h : Step s op o t) (hn : op.through? = some n)
    (he : s.entries[n]? = some e) (hu : s.Unavailable e) :
    ∃ failure, o = .record (.error failure) := by
  have hnone : o.exports? = none := by
    by_contra hsome
    obtain ⟨exports, ho⟩ := Option.ne_none_iff_exists'.1 hsome
    obtain ⟨n', e', hn', he', hh⟩ := h.handle?_of_exports ho
    rw [hn] at hn'
    cases hn'
    rw [he] at he'
    cases he'
    rw [handle?_of_unavailable hu] at hh
    cases hh
  cases h with
  | @absent op hl =>
    cases op with
    | load | register =>
      cases hn
      rw [Lacks, he] at hl
      cases hl
    | _ => cases hn
  | @ignored op hi =>
    cases op with
    | setAddress | setRefusal | setUsable => cases hn
    | _ => exact hi.elim
  | loadRefused | registerRefused | registerUnresolved => exact ⟨_, rfl⟩
  | @load n' i e' =>
    cases ha : s.answer e' with
    | error failure => exact ⟨failure, rfl⟩
    | ok handle =>
      rw [ha] at hnone
      cases hnone
  | @register _ _ _ _ _ _ answer =>
    cases answer with
    | error failure => exact ⟨failure, rfl⟩
    | ok => cases hnone
  | _ => cases hn

/-! ## Runs -/

theorem found?_congr (hr : t.records = s.records) (hc : ∀ p, t.cell? p = s.cell? p) (spot : Spot) :
    t.found? spot = s.found? spot := by
  cases spot with
  | record r => rw [found?, found?, hr]
  | place p => rw [found?, found?, hc]

/-- What is at a spot stays there. -/
theorem found?_of_le (hf : (s.after ops m).found? spot = some exports) (hm : m ≤ n) :
    (s.after ops n).found? spot = some exports := by
  cases spot with
  | record r =>
    refine lasts_after (P := fun t => t.found? (.record r) = some exports) hm hf ?_
    intro k op o _ hstep ih
    obtain ⟨hr, -⟩ := List.getElem?_eq_some_iff.1 ih
    rw [found?, hstep.records, List.getElem?_append_left hr]
    exact ih
  | place p =>
    obtain ⟨c, hc, he⟩ := found?_place_eq_some_iff.1 hf
    exact found?_place_eq_some_iff.2 ⟨c, cell?_of_filled hc he hm, he⟩

/-- What the exports at a spot after a step are: those that were there, those that the operation
returned, or those of another spot. -/
inductive Arrival (s : Session) (op : Operation) (o : Outcome) (exports : Exports) : Spot → Prop
  | stayed {spot : Spot} (before : s.found? spot = some exports) : Arrival s op o exports spot
  | kept (returned : o.exports? = some exports) :
      Arrival s op o exports (.record s.records.length)
  | registered {n i : Nat} (hop : op = .register n (some i))
      (returned : o.exports? = some exports) : Arrival s op o exports (.place (.host i))
  | given {r : Nat} {p : Place} (record : op.record? = some r) (target : op.target? = some p)
      (before : s.found? (.record r) = some exports) : Arrival s op o exports (.place p)
  | copied {p q : Place} (original : op.original? = some q)
      (before : s.found? (.place q) = some exports) : Arrival s op o exports (.place p)

theorem Step.arrival (h : Step s op o t) (hf : t.found? spot = some exports) :
    Arrival s op o exports spot := by
  cases spot with
  | record r =>
    rw [found?, h.records] at hf
    by_cases hr : r < s.records.length
    · rw [List.getElem?_append_left hr] at hf
      exact .stayed hf
    · rw [List.getElem?_append_right (by omega)] at hf
      have hreturned := Option.mem_toList.1 (List.mem_of_getElem? hf)
      obtain ⟨hlt, -⟩ := List.getElem?_eq_some_iff.1 hf
      rw [hreturned, Option.toList_some, List.length_singleton] at hlt
      obtain rfl : r = s.records.length := by omega
      exact .kept hreturned
  | place p =>
    obtain ⟨c, hc, he⟩ := found?_place_eq_some_iff.1 hf
    cases h.change p with
    | kept ht =>
      rw [ht] at hc
      exact .stayed (found?_place_eq_some_iff.2 ⟨c, hc, he⟩)
    | made _ _ ht =>
      rw [ht] at hc
      cases hc
      cases he
    | copied hq _ hcopy ht =>
      rw [ht] at hc
      cases hc
      exact .copied hq (found?_place_eq_some_iff.2 ⟨c, hcopy, he⟩)
    | filled hp hd _ _ ht =>
      rw [ht] at hc
      cases hc
      rw [Cell.content_filledWith] at he
      cases he
      cases hd with
      | register =>
        cases hp
        exact .registered rfl rfl
      | publish hk | fillSlot hk => exact .given rfl hp hk

/-- Whatever is found in a run of a session that had nothing was created by an operation of it. -/
theorem exists_origin (hs : ∀ spot, s.found? spot = none)
    (hf : (s.after ops n).found? spot = some exports) :
    ∃ m < n, Creates s ops m exports ∧ Origin s ops m exports n spot := by
  induction n generalizing spot with
  | zero =>
    rw [after, List.take_zero, List.foldl_nil, hs] at hf
    cases hf
  | succ n ih =>
    cases hop : ops[n]? with
    | none =>
      have hsame := after_succ_of_none (s := s) hop
      obtain ⟨m, hm, hcreates, horigin⟩ := ih (hsame ▸ hf)
      exact ⟨m, by omega, hcreates, .stayed horigin hf⟩
    | some op =>
      obtain ⟨o, hrun, hstep⟩ := step_after (s := s) hop
      cases hstep.arrival hf with
      | stayed hold =>
        obtain ⟨m, hm, hcreates, horigin⟩ := ih hold
        exact ⟨m, by omega, hcreates, .stayed horigin hf⟩
      | kept hreturned =>
        have hcreates := creates_of_exports hop hrun hreturned
        exact ⟨n, by omega, hcreates, .kept hcreates hf⟩
      | registered hregister hreturned =>
        subst hregister
        have hcreates := creates_of_exports hop hrun hreturned
        exact ⟨n, by omega, hcreates, .registered hcreates hop hf⟩
      | given hr hp hold =>
        obtain ⟨m, hm, hcreates, horigin⟩ := ih hold
        exact ⟨m, by omega, hcreates, .given horigin hop hr hp hf⟩
      | copied hq hold =>
        obtain ⟨m, hm, hcreates, horigin⟩ := ih hold
        exact ⟨m, by omega, hcreates, .copied horigin hop hq hf⟩

theorem found?_opened (addresses : List UInt64) (entries : List Entry) (hosts : List NewHost)
    (spot : Spot) : (opened addresses entries hosts).found? spot = none := by
  cases hf : (opened addresses entries hosts).found? spot with
  | none => rfl
  | some exports =>
    cases spot with
    | record r => cases hf
    | place p =>
      obtain ⟨c, hc, he⟩ := found?_place_eq_some_iff.1 hf
      rw [empty_of_opened hc] at he
      cases he

/-- In every run, all exports that are found anywhere have the name of the language, the two items
in their order and an address that is not null. They were created by one earlier operation, which
called the function of an entry for this address, and have been kept, published and copied from
there; the address stays the same in every later session. An operation through an entry that has no
function, or one that gives a null address, fails and puts nothing anywhere. -/
theorem records_have_origin (addresses : List UInt64) (entries : List Entry)
    (hosts : List NewHost) (ops : List Operation) :
    let s := opened addresses entries hosts
    (∀ n spot exports, (s.after ops n).found? spot = some exports →
      exports.Complete ∧ (∃ m < n, Creates s ops m exports ∧ Origin s ops m exports n spot) ∧
      ∀ n' ≥ n, (s.after ops n').found? spot = some exports) ∧
    (∀ n exports t, (s.run ops)[n]? = some (.record (.ok exports), t) →
      exports.Complete ∧ Creates s ops n exports) ∧
    ∀ n op j e, ops[n]? = some op → op.through? = some j → (s.after ops n).entries[j]? = some e →
      (s.after ops n).Unavailable e →
      (∃ failure, (s.run ops)[n]? = some (.record (.error failure), s.after ops (n + 1))) ∧
      ∀ spot, (s.after ops (n + 1)).found? spot = (s.after ops n).found? spot := by
  intro s
  refine ⟨?_, ?_, ?_⟩
  · intro n spot exports hf
    exact ⟨exports.complete, exists_origin (found?_opened addresses entries hosts) hf,
      fun n' hn => found?_of_le hf hn⟩
  · intro n exports t hrun
    cases hop : ops[n]? with
    | none =>
      rw [getElem?_run, hop] at hrun
      cases hrun
    | some op =>
      obtain ⟨-, rfl⟩ := step_of_run hop hrun
      exact ⟨exports.complete, creates_of_exports hop hrun rfl⟩
  · intro n op j e hop hj he hu
    obtain ⟨o, hrun, hstep⟩ := step_after (s := s) hop
    obtain ⟨failure, rfl⟩ := hstep.failure_of_unavailable hj he hu
    obtain ⟨hplaces, hrecords⟩ := hstep.eq_of_failure rfl
    exact ⟨⟨failure, hrun⟩, found?_congr hrecords hplaces⟩

end Session
end GrammarModule
