import WriteBack.Proofs.InStep
import WriteBack.Proofs.Interruption

/-!
# WriteBack.Proofs.AckTick

The tick on which a request is acknowledged (`AckedOn`), for any latency model. A presented request goes through
fixed stages: its line is read, it hits or misses, a dirty victim is written back, the block is fetched, and the
line is read again. In two of them the store counts down the latency of its command, and everything else takes
one cycle. There is one lemma for each stage, from the last one back to the first, and each adds its own ticks to
those of the next. The first lookup may have been decided by the beat before: then the request takes less
(`exists_ackedOn`), and otherwise it takes exactly as long (`ackedOn_ackTick`).
-/

namespace WriteBack

open Link

/-! ## The store over one cycle -/

namespace MemoryStore

section Exchange

variable {L : Type} {m : MemoryStore L} {c : Cache} {command : Command}

/-- An idle store takes a command and nothing else. -/
theorem exchange_idle (h : m.pending = none) : m.exchange c = { command := c.linkRequest.command } := by
  simp [exchange, Transfers.resolve, respond, h]

/-- Nothing crosses while the store waits. -/
theorem exchange_waiting {wait : Nat} (h : m.pending = some ⟨command, wait + 1⟩) : m.exchange c = {} := by
  simp [exchange, Transfers.resolve, respond, h]

/-- After the wait the beat crosses, if the cache is there for it. -/
theorem exchange_write (h : m.pending = some ⟨command, 0⟩) (hwe : command.we = true) :
    m.exchange c = { write := c.linkRequest.write } := by
  simp [exchange, Transfers.resolve, respond, h, hwe]

/-- The store serves a read: its block goes across when the cache takes it. -/
theorem exchange_read (h : m.pending = some ⟨command, 0⟩) (hwe : command.we = false) :
    m.exchange c =
      { read := if c.linkRequest.readReady then some (m.readBlock command.addr) else none } := by
  simp [exchange, Transfers.resolve, respond, h, hwe]

variable [LatencyModel L]

@[simp] theorem key_clock (t : Transfers) (addr : Nat) : (m.clock t).key addr = m.key addr := by
  obtain ⟨lineBytes, addrWidth, blocks, latency, pending, reads, writes⟩ := m
  obtain ⟨command, write, read⟩ := t
  cases pending <;> cases command <;> cases write <;> cases read <;> rfl

/-- The latency model goes on with a command. -/
theorem latency_clock (t : Transfers) :
    (m.clock t).latency = match t.command with
      | none => m.latency
      | some command => (LatencyModel.access m.latency (m.key command.addr)).2 := by
  obtain ⟨lineBytes, addrWidth, blocks, latency, pending, reads, writes⟩ := m
  obtain ⟨command, write, read⟩ := t
  cases pending <;> cases command <;> cases write <;> cases read <;> rfl

/-- A command waits for the time that the latency model gives it. -/
theorem pending_clock_command :
    (m.clock { command := some command }).pending =
      some ⟨command, (LatencyModel.access m.latency (m.key command.addr)).1⟩ := rfl

/-- A cycle of the countdown. -/
theorem pending_clock_waiting {wait : Nat} (h : m.pending = some ⟨command, wait + 1⟩) :
    (m.clock {}).pending = some ⟨command, wait⟩ := by
  simp [clock, countDown, h]

end Exchange

end MemoryStore

@[simp] theorem Cache.sampled_refillEdge (c : Cache) (p : Progress) (t : Transfers) :
    (c.refillEdge p t).sampled = c.sampled := by
  unfold refillEdge
  cases t.read <;> rfl

namespace Simulator

variable {L : Type} {s : Simulator (MemoryStore L)} {r : Bus.Request}

/-! ## A request and the state of the cache -/

/-- A request that does not hit is not acknowledged. -/
theorem silent_of_acks_eq_false (h : s.cache.acks r = false) : (s.cache.busResponse r).ack = false := by
  rw [← Bool.not_eq_true, s.cache.ack_busResponse r, h]
  simp

/-- A beat that was not presented in the cycle before has to read its line. -/
theorem undecided_of_inactive (h : s.cache.sampled.isActive = false) (r : Bus.Request) :
    s.cache.acks r = false ∧ s.cache.misses r = false := by
  simp [Cache.acks, Cache.misses, Cache.compares, h]

/-- A request is presented, and in the given state the cache waits for its block. -/
structure Awaiting (s : Simulator (MemoryStore L)) (r : Bus.Request) (state : Cache.State) : Prop where
  inStep : s.InStep
  active : r.isActive = true
  state_eq : s.cache.state = state
  missed_eq : s.cache.missed = s.cache.target r

/-- A stalled cache acknowledges nothing. -/
theorem Awaiting.silent {state : Cache.State} (h : s.Awaiting r state)
    (hstalled : state.isStalled = true) : (s.cache.busResponse r).ack = false := by
  rw [← Bool.not_eq_true, s.cache.ack_busResponse r]
  rintro ⟨hs, _⟩
  rw [← h.state_eq, hs] at hstalled
  cases hstalled

/-- The store is idle before it has the command and after the beat. -/
theorem Awaiting.pending_of_evict {p : Progress} (h : s.Awaiting r (.evict p))
    (hp : (p.command && !p.beat) = false) : s.link.store.pending = none := by
  have hserves := h.inStep.serves
  rw [MemoryStore.Serves, h.state_eq] at hserves
  simpa [hp] using hserves.2

/-- Between the operations of a request the store is idle. -/
theorem Awaiting.pending_of_refill {p : Progress} (h : s.Awaiting r (.refill p))
    (hp : (p.command && !p.beat) = false) : s.link.store.pending = none := by
  have hserves := h.inStep.serves
  rw [MemoryStore.Serves, h.state_eq] at hserves
  simpa [hp] using hserves.2

/-- The command of a refill asks for the block of the request. -/
theorem Awaiting.refillCommand_eq {state : Cache.State} (h : s.Awaiting r state) :
    s.cache.refillCommand =
      ⟨s.cache.geometry.layout.blockAddr (s.cache.target r).line (s.cache.target r).tag, false, true⟩ := by
  rw [Cache.refillCommand, h.missed_eq]

variable [LatencyModel L]

/-! ## Acknowledged on a tick -/

/-- A request that is presented from `s` on is acknowledged on tick `n`, counted from one, and not before. -/
structure AckedOn (s : Simulator (MemoryStore L)) (r : Bus.Request) (n : Nat) : Prop where
  silent : ∀ k, k + 1 < n → ((s.presenting r k).cache.busResponse r).ack = false
  acked : ∃ k, k + 1 = n ∧ ((s.presenting r k).cache.busResponse r).ack = true

variable {n : Nat}

/-- A request that is acknowledged now is acknowledged on the first tick. -/
theorem ackedOn_one (h : (s.cache.busResponse r).ack = true) : s.AckedOn r 1 :=
  ⟨fun k hk => absurd hk (by omega), 0, rfl, h⟩

/-- One more tick before the others. -/
theorem AckedOn.after (h : (s.next r).AckedOn r n) (hack : (s.cache.busResponse r).ack = false) :
    s.AckedOn r (n + 1) := by
  obtain ⟨hsilent, k, rfl, hacked⟩ := h
  refine ⟨fun j hj => ?_, k + 1, rfl, hacked⟩
  cases j with
  | zero => exact hack
  | succ j => exact hsilent j (Nat.lt_of_succ_lt_succ hj)

theorem AckedOn.of_eq {m : Nat} (h : s.AckedOn r m) (hm : m = n) : s.AckedOn r n := hm ▸ h

/-- A request is acknowledged now, or one tick earlier in the next cycle. -/
theorem AckedOn.cases (h : s.AckedOn r n) :
    (n = 1 ∧ (s.cache.busResponse r).ack = true) ∨
      ∃ m, n = m + 1 ∧ (s.cache.busResponse r).ack = false ∧ (s.next r).AckedOn r m := by
  obtain ⟨hsilent, k, rfl, hacked⟩ := h
  cases k with
  | zero => exact .inl ⟨rfl, hacked⟩
  | succ k =>
      exact .inr ⟨k + 1, rfl, hsilent 0 (by omega), fun j hj => hsilent (j + 1) (by omega), k, rfl, hacked⟩

/-! ## Reading the line -/

@[simp] theorem target_next (bus r : Bus.Request) : (s.next bus).cache.target r = s.cache.target r := by
  rw [Cache.target, Cache.target, cache_next, Cache.geometry_next]

/-- A cycle that neither hits nor misses reads the requested line, and the next one decides. -/
theorem decides_next (hs : s.cache.state = .check) (hactive : r.isActive = true)
    (hacks : s.cache.acks r = false) (hmiss : s.cache.misses r = false) {l : Cache.Line}
    (hl : s.cache.line? (s.cache.target r).line = some l) :
    (s.next r).cache.state = .check ∧ (s.next r).cache.loaded = l ∧
      ((s.next r).cache.acks r = true ↔ l.tag = (s.cache.target r).tag) ∧
      ((s.next r).cache.misses r = true ↔ l.tag ≠ (s.cache.target r).tag) := by
  have hloads := s.cache.loads_of_isActive r hactive hmiss
  have hline : s.cache.loadLine r = (s.cache.target r).line := by simp [Cache.loadLine, hacks]
  have hedge : (s.next r).cache = s.cache.checkEdge r := Cache.next_check hs r _
  have hloaded : (s.cache.checkEdge r).loaded = l :=
    Cache.loaded_checkEdge_of_loads hloads (by rw [hline, hl])
  have htag : (s.cache.checkEdge r).tags.out.tag = l.tag := congrArg Cache.Line.tag hloaded
  have hsampled : (s.cache.checkEdge r).sampled.isActive = true := by
    show (if s.cache.misses r then _ else _ : Cache.Sampled).isActive = true
    rw [hmiss]
    exact hactive
  have hloadedLine : (s.cache.checkEdge r).loadedLine = (s.cache.target r).line := by
    show (if s.cache.loads r then _ else _) = _
    rw [hloads, if_pos rfl, hline]
  have hstale : (s.cache.checkEdge r).stale = false := by
    show (if s.cache.loads r then _ else _) = _
    simp [hloads, Cache.writesLine, Cache.writes, hacks]
  have htarget : (s.cache.checkEdge r).target r = s.cache.target r := rfl
  rw [hedge, Cache.acks_iff, Cache.misses_iff, Cache.state_checkEdge]
  simp [hmiss, hloaded, htag, hsampled, hloadedLine, hstale, htarget, hactive]

/-- The block is there: one cycle to read its line, and one to find it. -/
theorem ackedOn_resident (hs : s.cache.state = .check) (hactive : r.isActive = true)
    (hacks : s.cache.acks r = false) (hmiss : s.cache.misses r = false) {l : Cache.Line}
    (hl : s.cache.line? (s.cache.target r).line = some l) (htag : l.tag = (s.cache.target r).tag) :
    s.AckedOn r 2 := by
  obtain ⟨hserving, _, hdecides, _⟩ := decides_next hs hactive hacks hmiss hl
  refine (ackedOn_one ?_).after (silent_of_acks_eq_false hacks)
  exact ((s.next r).cache.ack_busResponse r).mpr ⟨hserving, hdecides.mpr htag⟩

/-! ## Waiting for the store -/

/-- While a request is held, what missed is what it asks for. -/
theorem Awaiting.missed_next {state : Cache.State} (h : s.Awaiting r state) (hstalled : state.isStalled = true) :
    (s.next r).cache.missed = (s.next r).cache.target r := by
  rw [target_next, cache_next, (s.cache.miss_kept_of_stalled (h.state_eq ▸ hstalled) r _).2, h.missed_eq]

/-- An eviction goes on with what went across, and a refill follows it. -/
theorem Awaiting.next_evict {p : Progress} (h : s.Awaiting r (.evict p)) :
    (s.next r).Awaiting r (if p.isDone then .refill {} else .evict (Cache.evictProgress p s.transfers)) where
  inStep := h.inStep.next r
  active := h.active
  state_eq := by
    rw [cache_next, Cache.next_evict h.state_eq, Cache.state_evictEdge]
    rfl
  missed_eq := h.missed_next rfl

/-- A refill goes on with what went across. -/
theorem Awaiting.next_refill {p : Progress} (h : s.Awaiting r (.refill p)) (hp : p.isDone = false) :
    (s.next r).Awaiting r (.refill (Cache.refillProgress p s.transfers)) where
  inStep := h.inStep.next r
  active := h.active
  state_eq := by
    rw [cache_next, Cache.next_refill h.state_eq, Cache.state_refillEdge, hp]
    rfl
  missed_eq := h.missed_next rfl

/-- The command of an eviction stays the same while the request is held. -/
theorem Awaiting.evictCommand_next {p : Progress} (h : s.Awaiting r (.evict p)) :
    (s.next r).cache.evictCommand = s.cache.evictCommand := by
  rw [cache_next, Cache.next_evict h.state_eq]
  rfl

/-- So does the command of a refill. -/
theorem Awaiting.refillCommand_next {p : Progress} (h : s.Awaiting r (.refill p)) :
    (s.next r).cache.refillCommand = s.cache.refillCommand := by
  rw [cache_next, Cache.next_refill h.state_eq]
  simp [Cache.refillCommand]

/-- The latency model does not change in a cycle without a command. -/
theorem latency_next (bus : Bus.Request) (h : s.transfers.command = none) :
    (s.next bus).link.store.latency = s.link.store.latency := by
  rw [store_next]
  exact (MemoryStore.latency_clock _).trans (by rw [h])

/-! ## Fetching the block -/

/-- The block has come: its line is read again, and the request hits. -/
theorem ackedOn_refilled (h : s.Awaiting r (.refill ⟨true, true⟩)) {l : Cache.Line}
    (hl : s.cache.line? (s.cache.target r).line = some l) (htag : l.tag = (s.cache.target r).tag) :
    s.AckedOn r 3 := by
  have hs := h.state_eq
  have hedge : (s.next r).cache = s.cache.refillEdge ⟨true, true⟩ s.transfers := Cache.next_refill hs r _
  have hread : s.transfers.read = none := by
    rw [← Option.not_isSome_iff_eq_none]
    exact fun hr => absurd (read_isSome_of_refill hs hr) (by decide)
  have hserving : (s.next r).cache.state = .check := by rw [hedge, Cache.state_refillEdge]; rfl
  have hinactive : (s.next r).cache.sampled.isActive = false := by
    rw [hedge, Cache.sampled_refillEdge]
    exact (h.inStep.valid.refill_settled hs).1.inactive
  have hline : (s.next r).cache.line? ((s.next r).cache.target r).line = some l := by
    rw [target_next, hedge, Cache.line?_refillEdge, hread]
    exact hl
  obtain ⟨hacks, hmiss⟩ := undecided_of_inactive hinactive r
  refine (ackedOn_resident hserving h.active hacks hmiss hline ?_).after (h.silent rfl)
  rw [target_next]
  exact htag

/-- The store has the command of the refill: it waits, and then the beat crosses. -/
theorem ackedOn_fetching {wait : Nat} (h : s.Awaiting r (.refill ⟨true, false⟩))
    (hp : s.link.store.pending = some ⟨s.cache.refillCommand, wait⟩) : s.AckedOn r (wait + 4) := by
  induction wait generalizing s with
  | zero =>
      have hread : s.transfers = { read := some (s.link.store.readBlock s.cache.refillCommand.addr) } := by
        refine (MemoryStore.exchange_read hp rfl).trans ?_
        simp [Cache.linkRequest, h.state_eq, Cache.refillRequest]
      have hnext := h.next_refill rfl
      have hedge : (s.next r).cache = s.cache.refillEdge ⟨true, false⟩ s.transfers :=
        Cache.next_refill h.state_eq r _
      have hinstall := h.inStep.valid.line?_install (s.link.store.readBlock s.cache.refillCommand.addr)
        (s.cache.target r).line (s.cache.geometry.split_line_lt r.adr)
      have hline : (s.next r).cache.line? ((s.next r).cache.target r).line = some ⟨(s.cache.target r).tag,
          false, Block.fit s.cache.geometry.lineBytes (s.link.store.readBlock s.cache.refillCommand.addr)⟩ := by
        rw [target_next, hedge, Cache.line?_refillEdge, hread]
        rwa [h.missed_eq, if_pos rfl] at hinstall
      rw [hread] at hnext
      exact (ackedOn_refilled hnext hline (by rw [target_next])).after (h.silent rfl)
  | succ wait ih =>
      have hnone : s.transfers = {} := MemoryStore.exchange_waiting hp
      have hnext := h.next_refill rfl
      rw [hnone] at hnext
      refine (ih hnext ?_).after (h.silent rfl)
      rw [h.refillCommand_next, store_next, hnone]
      exact MemoryStore.pending_clock_waiting hp

/-- The time that the store takes to read the block of a request, with its latency model as given. -/
def readTime (s : Simulator (MemoryStore L)) (r : Bus.Request) (latency : L) : Nat :=
  let a := s.cache.target r
  (LatencyModel.access latency (s.link.store.key (s.cache.geometry.layout.blockAddr a.line a.tag))).1

@[simp] theorem readTime_next (bus r : Bus.Request) : (s.next bus).readTime r = s.readTime r := by
  funext latency
  rw [readTime, readTime, target_next, cache_next, Cache.geometry_next]
  exact congrArg (fun key => (LatencyModel.access latency key).1) (MemoryStore.key_clock ..)

/-- A refill: its command is taken at once. -/
theorem ackedOn_refill (h : s.Awaiting r (.refill {})) :
    s.AckedOn r (5 + s.readTime r s.link.store.latency) := by
  have hpending := h.pending_of_refill rfl
  have hcommand : s.transfers = { command := some s.cache.refillCommand } := by
    refine (MemoryStore.exchange_idle hpending).trans ?_
    simp [Cache.linkRequest, h.state_eq, Cache.refillRequest, Cache.refillCommand]
  have hnext := h.next_refill rfl
  rw [hcommand] at hnext
  have hwait : (s.next r).link.store.pending =
      some ⟨(s.next r).cache.refillCommand, s.readTime r s.link.store.latency⟩ := by
    rw [h.refillCommand_next, store_next, hcommand]
    refine MemoryStore.pending_clock_command.trans ?_
    rw [h.refillCommand_eq]
    rfl
  exact ((ackedOn_fetching hnext hwait).after (h.silent rfl)).of_eq (by omega)

/-! ## Writing the victim back -/

/-- The victim is in the store, and the refill comes next. -/
theorem ackedOn_evicted (h : s.Awaiting r (.evict ⟨true, true⟩)) :
    s.AckedOn r (6 + s.readTime r s.link.store.latency) := by
  have hpending := h.pending_of_evict rfl
  have hnone : s.transfers = {} := by
    refine (MemoryStore.exchange_idle hpending).trans ?_
    simp [Cache.linkRequest, h.state_eq, Cache.evictRequest]
  have hacked := (ackedOn_refill h.next_evict).after (h.silent rfl)
  rw [readTime_next, latency_next r (by rw [hnone])] at hacked
  exact hacked.of_eq (by omega)

/-- The store has the command of the write-back: it waits, and then the beat crosses. -/
theorem ackedOn_evicting {wait : Nat} (h : s.Awaiting r (.evict ⟨true, false⟩))
    (hp : s.link.store.pending = some ⟨s.cache.evictCommand, wait⟩) :
    s.AckedOn r (wait + 7 + s.readTime r s.link.store.latency) := by
  induction wait generalizing s with
  | zero =>
      have hwrite : s.transfers = { write := some s.cache.evictBeat } := by
        refine (MemoryStore.exchange_write hp rfl).trans ?_
        simp [Cache.linkRequest, h.state_eq, Cache.evictRequest, Cache.evictBeat]
      have hnext := h.next_evict
      rw [hwrite] at hnext
      have hacked := (ackedOn_evicted hnext).after (h.silent rfl)
      rw [readTime_next, latency_next r (by rw [hwrite])] at hacked
      exact hacked.of_eq (by omega)
  | succ wait ih =>
      have hnone : s.transfers = {} := MemoryStore.exchange_waiting hp
      have hnext := h.next_evict
      rw [hnone] at hnext
      have hwait : (s.next r).link.store.pending = some ⟨(s.next r).cache.evictCommand, wait⟩ := by
        rw [h.evictCommand_next, store_next, hnone]
        exact MemoryStore.pending_clock_waiting hp
      have hacked := (ih hnext hwait).after (h.silent rfl)
      rw [readTime_next, latency_next r (by rw [hnone])] at hacked
      exact hacked.of_eq (by omega)

/-- What the latency model says of the write-back of the line with the given tag that a request drives out. -/
def writeAccess (s : Simulator (MemoryStore L)) (r : Bus.Request) (tag : Nat) : Nat × L :=
  LatencyModel.access s.link.store.latency
    (s.link.store.key (s.cache.geometry.layout.blockAddr (s.cache.target r).line tag))

/-- An eviction: its command is taken at once, and the refill follows. -/
theorem ackedOn_evict (h : s.Awaiting r (.evict {})) :
    let write := s.writeAccess r s.cache.tags.out.tag
    s.AckedOn r (8 + write.1 + s.readTime r write.2) := by
  intro write
  have hpending := h.pending_of_evict rfl
  have hcommand : s.transfers = { command := some s.cache.evictCommand } := by
    refine (MemoryStore.exchange_idle hpending).trans ?_
    simp [Cache.linkRequest, h.state_eq, Cache.evictRequest, Cache.evictCommand]
  have haddr : s.cache.evictCommand.addr =
      s.cache.geometry.layout.blockAddr (s.cache.target r).line s.cache.tags.out.tag := by
    rw [Cache.evictCommand, h.missed_eq]
  have hwait : (s.next r).link.store.pending = some ⟨(s.next r).cache.evictCommand, write.1⟩ := by
    rw [h.evictCommand_next, store_next, hcommand]
    refine MemoryStore.pending_clock_command.trans ?_
    rw [haddr]
    rfl
  have hlatency : (s.next r).link.store.latency = write.2 := by
    rw [store_next, hcommand]
    refine (MemoryStore.latency_clock _).trans ?_
    dsimp only
    rw [haddr]
    rfl
  have hnext := h.next_evict
  rw [hcommand] at hnext
  have hacked := (ackedOn_evicting hnext hwait).after (h.silent rfl)
  rw [readTime_next, hlatency] at hacked
  exact hacked.of_eq (by omega)

/-! ## A beat -/

/-- A cycle that serves requests leaves the store alone. -/
theorem InStep.store_next_check (h : s.InStep) (hs : s.cache.state = .check) (bus : Bus.Request) :
    (s.next bus).link.store = s.link.store := MemoryStore.clock_check h.serves hs

/-- The tick on which a request is acknowledged that was not presented before, with `victim` in its line. -/
def ackTick (s : Simulator (MemoryStore L)) (r : Bus.Request) (victim : Cache.Line) : Nat :=
  if victim.tag = (s.cache.target r).tag then 2
  else if victim.dirty then
    let write := s.writeAccess r victim.tag
    10 + write.1 + s.readTime r write.2
  else 7 + s.readTime r s.link.store.latency

/-- The tick of an acknowledgement depends on the store, and not on the cycle. -/
theorem ackTick_next {bus : Bus.Request} (h : (s.next bus).link.store = s.link.store) :
    (s.next bus).ackTick r = s.ackTick r := by
  have hwrite : (s.next bus).writeAccess r = s.writeAccess r := by
    funext tag
    rw [writeAccess, writeAccess, target_next, h, cache_next, Cache.geometry_next]
  funext victim
  rw [ackTick, ackTick, target_next, readTime_next, hwrite, h]

/-- A request that misses at once has saved the tick that reads its line. It waits for the refill alone when its
victim is clean, and for the write-back as well when it is dirty. -/
theorem ackedOn_misses (h : s.InStep) (hs : s.cache.state = .check) (hmiss : s.cache.misses r = true) :
    ∃ n, n + 1 = s.ackTick r s.cache.loaded ∧ s.AckedOn r n := by
  obtain ⟨hacks, hloads⟩ := s.cache.acks_loads_of_misses r hmiss
  have hactive := ((s.cache.misses_iff r).mp hmiss).1.1
  have hother := (h.valid.line?_of_misses hmiss).2
  have hedge : (s.next r).cache = s.cache.checkEdge r := Cache.next_check hs r _
  have htags : (s.next r).cache.tags.out = s.cache.tags.out := by
    rw [hedge, s.cache.tags_out_checkEdge_of_not_loads r hloads]
  have hstore := h.store_next_check hs r
  have hstate : (s.next r).cache.state = if s.cache.tags.out.dirty then .evict {} else .refill {} := by
    rw [hedge, Cache.state_checkEdge, hmiss, if_pos rfl]
  have hmissed : (s.next r).cache.missed = (s.next r).cache.target r := by
    rw [target_next, hedge, s.cache.missed_checkEdge_of_misses r hmiss]
  have hsilent := silent_of_acks_eq_false hacks
  rw [← ackTick_next hstore, ackTick, target_next, if_neg hother]
  cases hdirty : s.cache.tags.out.dirty with
  | true =>
      rw [hdirty] at hstate
      refine ⟨_, ?_, (ackedOn_evict ⟨h.next r, hactive, hstate, hmissed⟩).after hsilent⟩
      rw [if_pos (show s.cache.loaded.dirty = true from hdirty), htags]
      dsimp only [Cache.loaded]
      omega
  | false =>
      rw [hdirty] at hstate
      refine ⟨_, ?_, (ackedOn_refill ⟨h.next r, hactive, hstate, hmissed⟩).after hsilent⟩
      rw [if_neg (by simp [Cache.loaded, hdirty])]
      omega

/-- A request that has to read its line is acknowledged exactly then. -/
theorem ackedOn_ackTick (h : s.InStep) (hs : s.cache.state = .check) (hactive : r.isActive = true)
    (hacks : s.cache.acks r = false) (hmiss : s.cache.misses r = false) {victim : Cache.Line}
    (hl : s.cache.line? (s.cache.target r).line = some victim) : s.AckedOn r (s.ackTick r victim) := by
  obtain ⟨hserving, hloaded, _, hdecides⟩ := decides_next hs hactive hacks hmiss hl
  by_cases htag : victim.tag = (s.cache.target r).tag
  · rw [ackTick, if_pos htag]
    exact ackedOn_resident hs hactive hacks hmiss hl htag
  · obtain ⟨n, hn, hacked⟩ := ackedOn_misses (h.next r) hserving (hdecides.mpr htag)
    rw [ackTick_next (h.store_next_check hs r), hloaded] at hn
    exact (hacked.after (silent_of_acks_eq_false hacks)).of_eq hn

/-- Any request in a cache that serves requests is acknowledged by then. -/
theorem exists_ackedOn (h : s.InStep) (hs : s.cache.state = .check) (hactive : r.isActive = true) :
    ∃ victim, s.cache.line? (s.cache.target r).line = some victim ∧
      ∃ n ≤ s.ackTick r victim, s.AckedOn r n := by
  cases hacks : s.cache.acks r with
  | true =>
      obtain ⟨l, hl, htag, _⟩ := h.valid.line?_of_acks hs hacks
      refine ⟨l, hl, 1, ?_, ackedOn_one ((s.cache.ack_busResponse r).mpr ⟨hs, hacks⟩)⟩
      rw [ackTick, if_pos htag]
      omega
  | false =>
      cases hmiss : s.cache.misses r with
      | true =>
          obtain ⟨n, hn, hacked⟩ := ackedOn_misses h hs hmiss
          exact ⟨_, (h.valid.line?_of_misses hmiss).1, n, by omega, hacked⟩
      | false =>
          obtain ⟨victim, hl⟩ := h.valid.exists_line (s.cache.geometry.split_line_lt r.adr)
          exact ⟨victim, hl, _, Nat.le_refl _, ackedOn_ackTick h hs hactive hacks hmiss hl⟩

end Simulator

end WriteBack
