import WriteBack.Proofs.Protocol

/-!
# WriteBack.Proofs.Offers

An offer on the link stays until it is taken, and is not made twice. While an eviction or a refill is in
progress, the offer of the next cycle is what this cycle offered less what went across in it
(`linkRequest_next`). It is computed anew in every cycle, but from registers that nothing on the bus reaches
while the cache is stalled. So a channel that waits keeps its payload, and a channel that has transferred is
silent for the rest of the operation (`offers_held`).
-/

namespace WriteBack

namespace Link

/-! ## Offers from one cycle to the next -/

/-- The offer that is left after a cycle in which these transfers completed. -/
def Request.without (offer : Request) (t : Transfers) : Request where
  command := if t.command.isSome then none else offer.command
  write := if t.write.isSome then none else offer.write
  readReady := offer.readReady && t.read.isNone

/-- What was offered and did not go across is offered again, with the same payload. -/
structure Held (offer : Request) (t : Transfers) (again : Request) : Prop where
  command : ∀ command, offer.command = some command → t.command = none → again.command = some command
  write : ∀ beat, offer.write = some beat → t.write = none → again.write = some beat
  readReady : offer.readReady = true → t.read = none → again.readReady = true

/-- The channels that transferred are not offered. -/
structure Closed (t : Transfers) (offer : Request) : Prop where
  command : t.command.isSome = true → offer.command = none
  write : t.write.isSome = true → offer.write = none
  readReady : t.read.isSome = true → offer.readReady = false

theorem held_without (offer : Request) (t : Transfers) : Held offer t (offer.without t) where
  command command h ht := by simp [Request.without, h, ht]
  write beat h ht := by simp [Request.without, h, ht]
  readReady h ht := by simp [Request.without, h, ht]

theorem closed_without (offer : Request) (t : Transfers) : Closed t (offer.without t) where
  command ht := by simp [Request.without, ht]
  write ht := by simp [Request.without, ht]
  readReady ht := by
    have hread : t.read.isNone = false := by cases hr : t.read <;> simp_all
    simp [Request.without, hread]

/-- A channel that is closed is not opened by taking more away. -/
theorem Closed.without {t : Transfers} {offer : Request} (h : Closed t offer) (t' : Transfers) :
    Closed t (offer.without t') where
  command ht := by simp [Request.without, h.command ht]
  write ht := by simp [Request.without, h.write ht]
  readReady ht := by simp [Request.without, h.readReady ht]

end Link

namespace Cache

open Link

/-- Both states are evictions, or both are refills. -/
def State.SameOperation : State → State → Prop
  | .evict _, .evict _ | .refill _, .refill _ => True
  | _, _ => False

/-- Operations of one kind are of one kind with each other. -/
theorem State.SameOperation.comm_trans {a b s : State} (ha : a.SameOperation s) (hb : b.SameOperation s) :
    b.SameOperation a := by
  cases a <;> cases b <;> cases s <;> trivial

variable {c : Cache}

/-- As long as something is on offer, the operation goes on. -/
theorem sameOperation_next (h : c.linkRequest ≠ {}) (bus : Bus.Request) (link : Response) :
    (c.next bus link).state.SameOperation c.state := by
  cases hs : c.state with
  | check =>
      have hnone : c.linkRequest = {} := by simp [linkRequest, hs]
      exact absurd hnone h
  | evict p =>
      have hdone : p.isDone = false := by
        rw [← Bool.not_eq_true]
        intro hdone
        apply h
        simp [linkRequest, hs, evictRequest, eq_of_isDone hdone]
      rw [next_evict hs, state_evictEdge, hdone]
      trivial
  | refill p =>
      have hdone : p.isDone = false := by
        rw [← Bool.not_eq_true]
        intro hdone
        apply h
        simp [linkRequest, hs, refillRequest, eq_of_isDone hdone]
      rw [next_refill hs, state_refillEdge, hdone]
      trivial

/-- The offer of an eviction after a cycle: its handshakes go as far as the channels were taken. -/
theorem evictRequest_progress (p : Progress) (link : Response) :
    let t := Transfers.resolve (c.evictRequest p) link
    c.evictRequest (evictProgress p t) = (c.evictRequest p).without t := by
  obtain ⟨command, beat⟩ := p
  obtain ⟨commandReady, writeReady, read⟩ := link
  cases command <;> cases beat <;> cases commandReady <;> cases writeReady <;> rfl

/-- The offer of a refill after a cycle. -/
theorem refillRequest_progress (p : Progress) (link : Response) :
    let t := Transfers.resolve (c.refillRequest p) link
    c.refillRequest (refillProgress p t) = (c.refillRequest p).without t := by
  obtain ⟨command, beat⟩ := p
  obtain ⟨commandReady, writeReady, read⟩ := link
  cases command <;> cases beat <;> cases commandReady <;> cases read <;>
    simp [refillRequest, refillProgress, Transfers.resolve, Request.without]

theorem refillRequest_refillEdge (c : Cache) (p q : Progress) (t : Transfers) :
    (c.refillEdge p t).refillRequest q = c.refillRequest q := by
  unfold refillRequest
  rw [missed_refillEdge, geometry_refillEdge]

/-- **The offer of the next cycle** of an operation: what is left of the offer of this one. -/
theorem linkRequest_next {bus : Bus.Request} {link : Response}
    (h : (c.next bus link).state.SameOperation c.state) :
    (c.next bus link).linkRequest = c.linkRequest.without (.resolve c.linkRequest link) := by
  cases hs : c.state with
  | check =>
      rw [hs] at h
      cases hnext : (c.next bus link).state <;> rw [hnext] at h <;> exact h.elim
  | evict p =>
      have hnow : c.linkRequest = c.evictRequest p := by simp only [linkRequest, hs]
      rw [next_evict hs, hs, hnow, state_evictEdge] at h
      rw [next_evict hs, hnow, ← evictRequest_progress]
      cases hdone : p.isDone with
      | true =>
          rw [hdone] at h
          exact h.elim
      | false =>
          -- the registers behind the payloads are those of the cycle before
          simp only [linkRequest, state_evictEdge, hdone, Bool.false_eq_true, if_false]
          rfl
  | refill p =>
      have hnow : c.linkRequest = c.refillRequest p := by simp only [linkRequest, hs]
      rw [next_refill hs, hs, hnow, state_refillEdge] at h
      rw [next_refill hs, hnow, ← refillRequest_progress]
      cases hdone : p.isDone with
      | true =>
          rw [hdone] at h
          exact h.elim
      | false =>
          -- a read beat changes the memories, but not the address that missed
          simp only [linkRequest, state_refillEdge, hdone, Bool.false_eq_true, if_false]
          exact c.refillRequest_refillEdge ..

/-- One cycle: what was on offer and did not go across is on offer again. -/
theorem held_next (c : Cache) (bus : Bus.Request) (link : Response) :
    Held c.linkRequest (.resolve c.linkRequest link) (c.next bus link).linkRequest := by
  by_cases h : c.linkRequest = {}
  · rw [h]
    exact ⟨by simp, by simp, by simp⟩
  · rw [linkRequest_next (sameOperation_next h bus link)]
    exact held_without ..

/-! ## Runs of a cache on its own -/

/-- One cycle of a cache between any bus master and any store. -/
structure Cycle where
  before : Cache
  bus : Bus.Request
  link : Response

namespace Cycle

/-- What the cache offers on the link. -/
def offer (k : Cycle) : Request := (k.before.step k.bus k.link).1.link

/-- What goes across the link on the edge. -/
def transfers (k : Cycle) : Transfers := .resolve k.offer k.link

/-- The cache after the edge. -/
def after (k : Cycle) : Cache := (k.before.step k.bus k.link).2

end Cycle

/-- The cycles of a cache with the given signals on the bus and from the store. -/
def run (c : Cache) : List (Bus.Request × Response) → List Cycle
  | [] => []
  | (bus, link) :: inputs => ⟨c, bus, link⟩ :: run (c.next bus link) inputs

/-- What holds of the cache of a run and is kept by every cycle holds before each cycle of the run. -/
theorem invariant_of_mem_run {P : Cache → Prop} (hnext : ∀ c bus link, P c → P (c.next bus link)) {c : Cache}
    (hc : P c) {inputs : List (Bus.Request × Response)} {k : Cycle} (h : k ∈ c.run inputs) : P k.before := by
  induction inputs generalizing c with
  | nil => cases h
  | cons input inputs ih =>
      rcases List.mem_cons.mp h with rfl | hrest
      · exact hc
      · exact ih (hnext c _ _ hc) hrest

/-- The run after a cycle is a run of the cache that the cycle left. -/
theorem run_after {inputs : List (Bus.Request × Response)} {earlier later : List Cycle} {k : Cycle}
    (h : c.run inputs = earlier ++ k :: later) : ∃ inputs', k.after.run inputs' = later := by
  induction earlier generalizing c inputs with
  | nil =>
      match inputs with
      | [] => cases h
      | (bus, link) :: inputs =>
          obtain ⟨rfl, rfl⟩ := List.cons.inj h
          exact ⟨inputs, rfl⟩
  | cons k' earlier ih =>
      match inputs with
      | [] => cases h
      | (bus, link) :: inputs => exact ih (List.cons.inj h).2

/-- The first cycle of a run starts with its cache. -/
theorem before_of_run {inputs : List (Bus.Request × Response)} {later : List Cycle} {k : Cycle}
    (h : c.run inputs = k :: later) : k.before = c := by
  match inputs with
  | [] => cases h
  | (bus, link) :: inputs => rw [← (List.cons.inj h).1]

/-- While the operation goes on, a closed channel stays closed. -/
theorem closed_of_run {t : Transfers} {inputs : List (Bus.Request × Response)} {stall later : List Cycle}
    {last : Cycle} {state : State} (h : c.run inputs = stall ++ last :: later)
    (hsame : ∀ k ∈ stall ++ [last], k.before.state.SameOperation state) (hclosed : Closed t c.linkRequest) :
    Closed t last.offer := by
  induction stall generalizing c inputs with
  | nil =>
      have hlast : last.offer = c.linkRequest := congrArg linkRequest (before_of_run h)
      rwa [hlast]
  | cons k stall ih =>
      have hk : k.before = c := before_of_run h
      obtain ⟨inputs', hrest⟩ := @run_after c inputs [] _ _ h
      have hstate := hsame k List.mem_cons_self
      have hsame' : ∀ k ∈ stall ++ [last], k.before.state.SameOperation state :=
        fun k' hk' => hsame k' (List.mem_cons_of_mem _ hk')
      have hafter : k.after.state.SameOperation state := by
        cases stall with
        | nil => exact before_of_run hrest ▸ hsame' last List.mem_cons_self
        | cons k' stall => exact before_of_run hrest ▸ hsame' k' List.mem_cons_self
      have hoffer : k.after.linkRequest = c.linkRequest.without (.resolve c.linkRequest k.link) :=
        hk ▸ linkRequest_next (State.SameOperation.comm_trans hstate hafter)
      exact ih hrest hsame' (hoffer ▸ hclosed.without _)

/-- **Offers are held until they are taken and are not repeated**, for every cache in every state, every
sequence of requests on the bus and every sequence of answers of the store.

* What the cache offers in a cycle and does not get across on its edge it offers in the next cycle, unchanged.
* As long as the cache stays in the eviction or the refill in which a channel has transferred, it does not
  offer that channel again. -/
theorem offers_held (c : Cache) (inputs : List (Bus.Request × Response)) {earlier rest : List Cycle}
    {first : Cycle} (h : c.run inputs = earlier ++ first :: rest) :
    (∀ second later, rest = second :: later → Held first.offer first.transfers second.offer) ∧
      ∀ stall last later, rest = stall ++ last :: later →
        (∀ k ∈ stall ++ [last], k.before.state.SameOperation first.before.state) →
        Closed first.transfers last.offer := by
  obtain ⟨inputs', hrest⟩ := run_after h
  refine ⟨?_, ?_⟩
  · rintro second later rfl
    have hsecond : second.offer = first.after.linkRequest := congrArg linkRequest (before_of_run hrest)
    rw [hsecond]
    exact held_next ..
  · rintro stall last later rfl hsame
    have hafter : first.after.state.SameOperation first.before.state := by
      cases stall with
      | nil => exact before_of_run hrest ▸ hsame last List.mem_cons_self
      | cons k stall => exact before_of_run hrest ▸ hsame k List.mem_cons_self
    have hoffer : first.after.linkRequest = first.offer.without first.transfers := linkRequest_next hafter
    exact closed_of_run hrest hsame (hoffer ▸ closed_without ..)

/-- A miss whose read beat comes before its command is taken, while the bus turns to a write of another word:
the command stays on offer, and no further beat is asked for. -/
theorem offers_held_early_beat :
    ∃ earlier first second, (ofGeometry Simulator.tiny).run
        [(.read 0 3, {}), (.read 0 3, {}), (.write 5 0xabcd 3, { read := some [1, 2, 3, 4] }), (.idle, {})] =
        earlier ++ [first, second] ∧
      first.offer = { command := some ⟨0, false, true⟩, readReady := true } ∧
      second.offer.command = some ⟨0, false, true⟩ ∧ second.offer.readReady = false := by
  have hrun : ∃ earlier first second, (ofGeometry Simulator.tiny).run
        [(.read 0 3, {}), (.read 0 3, {}), (.write 5 0xabcd 3, { read := some [1, 2, 3, 4] }), (.idle, {})] =
        earlier ++ [first, second] ∧ first.link = { read := some [1, 2, 3, 4] } ∧
      first.offer = { command := some ⟨0, false, true⟩, readReady := true } ∧
      second.before.state = .refill ⟨false, true⟩ ∧ first.before.state = .refill {} :=
    ⟨[_, _], _, _, rfl, rfl, rfl, rfl, rfl⟩
  obtain ⟨earlier, first, second, hrun, hlink, hoffer, hsecond, hfirst⟩ := hrun
  have htransfers : first.transfers = { read := some [1, 2, 3, 4] } := by
    rw [Cycle.transfers, hoffer, hlink]
    rfl
  obtain ⟨hheld, hclosed⟩ := offers_held _ _ hrun
  have hsame : second.before.state.SameOperation first.before.state := by
    rw [hsecond, hfirst]
    trivial
  refine ⟨earlier, first, second, hrun, hoffer, ?_, ?_⟩
  · exact (hheld second [] rfl).command _ (congrArg Request.command hoffer) (congrArg Transfers.command htransfers)
  · refine (hclosed [] second [] rfl ?_).readReady (by rw [htransfers]; rfl)
    exact List.forall_mem_singleton.mpr hsame

end Cache

end WriteBack
