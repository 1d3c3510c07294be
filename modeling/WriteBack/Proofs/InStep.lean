import WriteBack.Proofs.CoherentRun
import WriteBack.Proofs.Evictions
import WriteBack.Proofs.Untimed

/-!
# WriteBack.Proofs.InStep

What one cycle of a simulator does to the untimed cache that it stands for. `Shows` compares the two: lines,
blocks, log and counters, all but the time. A cycle performs a beat, counts a miss, writes a line back, fills
a line or changes nothing (`Untimed.advance`), for any request on the bus, any latencies and any contents of
the store (`Shows.next`).
-/

namespace WriteBack

open Link

/-! ## The counters over one cycle -/

namespace Cache

/-- What serving requests counts: an acknowledgement, as a hit or as a retry, or a miss. -/
theorem timeless_countCheck (c : Cache) (bus : Bus.Request) :
    (c.countCheck bus).timeless =
      if c.acks bus then c.counters.timeless.countBeat bus.we (!c.retrying)
      else if c.misses bus then c.counters.timeless.countMiss
      else c.counters.timeless := by
  cases hacks : c.acks bus with
  | true =>
      have hmiss := c.misses_eq_false_of_acks bus hacks
      cases hwe : bus.we <;> cases hretry : c.retrying <;>
        simp [countCheck, hacks, hmiss, hwe, hretry, Counters.timeless, Counters.countBeat]
  | false =>
      cases hmiss : c.misses bus <;>
        simp [countCheck, hacks, hmiss, Counters.timeless, Counters.countMiss]

/-- The byte enable of an eviction covers a line. -/
theorem enabledBytes_evictBeat (c : Cache) : enabledBytes c.evictBeat = c.geometry.lineBytes := by
  have hle := c.geometry.lineBytes_le
  have hcount (m : Nat) : (List.range m).countP (2 ^ c.geometry.lineBytes - 1).testBit =
      min c.geometry.lineBytes m := by
    induction m with
    | zero => simp
    | succ m ih =>
        rw [List.range_succ, List.countP_append, ih, List.countP_singleton, Nat.testBit_two_pow_sub_one]
        by_cases hm : m < c.geometry.lineBytes
        · simp only [decide_eq_true hm, if_true]
          omega
        · simp only [decide_eq_false hm, Bool.false_eq_true, if_false]
          omega
  have h := hcount 64
  rw [Nat.min_eq_left hle] at h
  rw [enabledBytes, evictBeat, Geometry.fullByteEnable, lowMask_of_le hle]
  exact h

/-- An eviction counts its write beat. -/
theorem timeless_countStall_evict (c : Cache) {t : Transfers} (hread : t.read = none)
    (hwrite : ∀ beat ∈ t.write, beat = c.evictBeat) :
    (c.countStall t).timeless =
      if t.write.isSome then c.counters.timeless.countEviction c.geometry.lineBytes
      else c.counters.timeless := by
  cases hw : t.write with
  | none => simp [countStall, hread, hw, Counters.timeless]
  | some beat =>
      have hbytes : enabledBytes beat = c.geometry.lineBytes := by
        rw [hwrite beat hw, c.enabledBytes_evictBeat]
      simp [countStall, hread, hw, hbytes, Counters.timeless, Counters.countEviction]

/-- A refill counts its read beat. -/
theorem timeless_countStall_refill (c : Cache) {t : Transfers} (hwrite : t.write = none)
    (hread : ∀ block ∈ t.read, block.length = c.geometry.lineBytes) :
    (c.countStall t).timeless =
      if t.read.isSome then c.counters.timeless.countRefill c.geometry.lineBytes
      else c.counters.timeless := by
  cases hr : t.read with
  | none => simp [countStall, hwrite, hr, Counters.timeless]
  | some block =>
      have hbytes : block.length = c.geometry.lineBytes := hread block hr
      simp [countStall, hwrite, hr, hbytes, Counters.timeless, Counters.countRefill]

/-- A write that hits sets a word of its line. -/
theorem overwrite_eq {c : Cache} (hv : c.Valid) {bus : Bus.Request} {i : Nat} {l : Line}
    (hl : c.line? i = some l) (htag : l.tag = (c.target bus).tag) :
    c.overwrite bus l = ⟨l.tag, true,
      Block.setWord c.geometry.busBytes (c.target bus).offset
        (mergeGranules c.geometry.granularity c.geometry.selWidth bus.sel
          (Block.word c.geometry.busBytes (c.target bus).offset l.data) bus.datW) l.data⟩ := by
  have hoffset : (c.target bus).offset < c.geometry.wordsPerLine := c.geometry.split_offset_lt bus.adr
  rw [overwrite, hv.granuleBytes_eq, writeMask, c.geometry.merge_eq_setWord hoffset (hv.length_data hl), htag]

end Cache

namespace Simulator

variable {L : Type}

/-! ## Cache, monitor and store in step -/

/-- The cache, the monitor and the store agree on the operation in progress. Unlike `Sound` this says nothing
of the contents. -/
structure InStep (s : Simulator (MemoryStore L)) : Prop where
  valid : s.cache.Valid
  watches : s.link.monitor.Watches s.cache
  fits : s.link.store.Fits s.cache.geometry
  serves : s.link.store.Serves s.cache

/-- The simulator holds what the untimed cache holds, and has done what that has done. -/
structure Shows (s : Simulator (MemoryStore L)) (u : Untimed) : Prop where
  lines : ∀ i < s.cache.geometry.lines, s.cache.line? i = some (u.lines i)
  blocks : ∀ addr < 2 ^ s.cache.geometry.layout.blockBits, s.link.store.readBlock addr = u.blocks addr
  log : s.link.monitor.log.toList.map Operation.timeless = u.log
  counters : s.cache.counters.timeless = u.counters

variable {s : Simulator (MemoryStore L)} {u : Untimed}

/-- While a line waits to be written back, the untimed cache has it too. -/
theorem Shows.victim (hu : s.Shows u) (h : s.InStep) {p : Progress} (hs : s.cache.state = .evict p) :
    u.lines s.cache.missed.line = s.cache.loaded := by
  obtain ⟨hawaits, hstale, _⟩ := h.valid.evict_settled hs
  have hvictim := h.valid.line?_of_awaits hawaits hstale
  have hline : s.cache.missed.line < s.cache.geometry.lines := s.cache.geometry.split_line_lt _
  rw [hu.lines _ hline] at hvictim
  exact Option.some.inj hvictim

variable [LatencyModel L]

/-- The parts still agree after any cycle. -/
theorem InStep.next (h : s.InStep) (bus : Bus.Request) : (s.next bus).InStep where
  valid := h.valid.next bus _
  watches := (Monitor.watches_next h.watches bus s.link.drive).2
  fits := by
    rw [cache_next, Cache.geometry_next]
    cases hs : s.cache.state with
    | check =>
        have hstore : (s.next bus).link.store = s.link.store := MemoryStore.clock_check h.serves hs
        rw [hstore]
        exact h.fits
    | evict p =>
        obtain ⟨_, ⟨_, hsame⟩ | ⟨_, hsame⟩⟩ := MemoryStore.clock_evict h.serves hs
        · exact hsame.fits h.fits
        · exact hsame.fits (h.fits.writeBlock ..)
    | refill p => exact (MemoryStore.clock_refill h.serves hs).2.1.fits h.fits
  serves := by
    cases hs : s.cache.state with
    | check =>
        have hstore : (s.next bus).link.store = s.link.store := MemoryStore.clock_check h.serves hs
        have hpending := h.serves
        rw [MemoryStore.Serves, hs] at hpending
        rw [hstore, cache_next, Cache.next_check hs]
        refine MemoryStore.serves_idle hpending ?_
        rw [Cache.state_checkEdge]
        cases s.cache.misses bus <;> cases s.cache.tags.out.dirty <;> simp
    | evict p =>
        rw [cache_next, Cache.next_evict hs]
        exact (MemoryStore.clock_evict h.serves hs).1
    | refill p =>
        rw [cache_next, Cache.next_refill hs]
        exact (MemoryStore.clock_refill h.serves hs).1

/-! ## When an operation is filed -/

/-- Where the command always goes first, an operation is done when its beat is. -/
theorem isDone_eq_beat {p : Progress} (h : p.beat = true → p.command = true) : p.isDone = p.beat := by
  obtain ⟨command, beat⟩ := p
  cases beat with
  | false => simp [Progress.isDone]
  | true =>
      have hcommand : command = true := h rfl
      simp [Progress.isDone, hcommand]

/-- After the beat that goes across once, no beat goes across. -/
theorem eq_false_of_once {p : Progress} {beat : Bool} (honce : beat = true → p.beat = false) (hp : p.beat = true) :
    beat = false := by
  rw [← Bool.not_eq_true]
  exact fun hbeat => absurd (hp.symm.trans (honce hbeat)) (by decide)

/-- Where the command always goes first, an operation gets done in the cycle in which its beat goes across. -/
theorem completes_eq_beat {p p' : Progress} {beat : Bool} (horder : p.beat = true → p.command = true)
    (horder' : p.isDone = false → p'.beat = true → p'.command = true) (hbeat' : p'.beat = (p.beat || beat))
    (hbeat : beat = true → p.beat = false) : (!p.isDone && p'.isDone) = beat := by
  have hdone := isDone_eq_beat horder
  cases hp : p.beat with
  | true => simp [hdone, hp, eq_false_of_once hbeat hp]
  | false =>
      have hdone' := isDone_eq_beat (horder' (hdone.trans hp))
      simp [hdone, hp, hdone', hbeat']

/-- A beat goes across once. -/
theorem write_isSome_of_evict {p : Progress} (hs : s.cache.state = .evict p) :
    s.transfers.write.isSome = true → p.beat = false := by
  rw [← Bool.not_eq_true]
  intro hw hbeat
  simp [transfers, Transfers.resolve, Cache.linkRequest, hs, Cache.evictRequest, hbeat] at hw

/-- The read beat of a refill goes across once. -/
theorem read_isSome_of_refill {p : Progress} (hs : s.cache.state = .refill p) :
    s.transfers.read.isSome = true → p.beat = false := by
  rw [← Bool.not_eq_true]
  intro hr hbeat
  simp [transfers, Transfers.resolve, Cache.linkRequest, hs, Cache.refillRequest, hbeat] at hr

/-- The monitor files an eviction in the cycle in which its beat goes across. -/
theorem InStep.files_evict (h : s.InStep) {p : Progress} (hs : s.cache.state = .evict p) :
    (!p.isDone && (Cache.evictProgress p s.transfers).isDone) = s.transfers.write.isSome := by
  have hserves := h.serves
  have hnext := (h.next .idle).serves
  rw [MemoryStore.Serves, hs] at hserves
  rw [cache_next, Cache.next_evict hs, MemoryStore.Serves, Cache.state_evictEdge] at hnext
  refine completes_eq_beat hserves.1 (fun hdone => ?_) rfl (write_isSome_of_evict hs)
  rw [hdone] at hnext
  exact hnext.1

/-- The monitor files a refill in the cycle in which its beat goes across. -/
theorem InStep.files_refill (h : s.InStep) {p : Progress} (hs : s.cache.state = .refill p) :
    (!p.isDone && (Cache.refillProgress p s.transfers).isDone) = s.transfers.read.isSome := by
  have hserves := h.serves
  have hnext := (h.next .idle).serves
  rw [MemoryStore.Serves, hs] at hserves
  rw [cache_next, Cache.next_refill hs, MemoryStore.Serves, Cache.state_refillEdge] at hnext
  refine completes_eq_beat hserves.1 (fun hdone => ?_) rfl (read_isSome_of_refill hs)
  rw [hdone] at hnext
  exact hnext.1

/-! ## What a cycle does to the untimed cache -/

/-- What one cycle does to the untimed cache: it performs a beat, counts a miss, writes a line back, fills a
line, or changes nothing. -/
def advance (s : Simulator (MemoryStore L)) (bus : Bus.Request) (u : Untimed) : Untimed :=
  let c := s.cache
  match c.state with
  | .check =>
    if c.acks bus then u.perform c.geometry bus.toBeat (!c.retrying)
    else if c.misses bus then u.countMiss
    else u
  | .evict _ => if s.transfers.write.isSome then u.writeBack c.geometry c.missed.line else u
  | .refill _ => if s.transfers.read.isSome then u.fill c.geometry c.missed else u

theorem Shows.next_check (hu : s.Shows u) (h : s.InStep) (hs : s.cache.state = .check) (bus : Bus.Request) :
    (s.next bus).Shows (s.advance bus u) where
  lines i hi := by
    rw [cache_next, Cache.geometry_next] at hi
    have hl := hu.lines i hi
    rw [cache_next, Cache.next_check hs, Cache.line?_checkEdge, hl, advance, hs]
    dsimp only
    cases hacks : s.cache.acks bus with
    | false =>
        simp only [Cache.writesLine, Cache.writes, hacks, Bool.false_and, Bool.false_eq_true, if_false]
        cases s.cache.misses bus <;> rfl
    | true =>
        obtain ⟨l, htarget, htag, _⟩ := h.valid.line?_of_acks hs hacks
        rw [if_pos rfl]
        cases hwe : bus.we with
        | false =>
            have hline : s.cache.writesLine bus i = false := by simp [Cache.writesLine, Cache.writes, hwe]
            rw [hline]
            simp [Untimed.perform, Bus.Request.toBeat, hwe]
        | true =>
            by_cases hline : i = (s.cache.target bus).line
            · subst hline
              have hwrites : s.cache.writesLine bus (s.cache.target bus).line = true := by
                simp [Cache.writesLine, Cache.writes, hwe, hacks]
              rw [hl] at htarget
              -- the line that is hit has the tag of the request already
              rw [if_pos hwrites, Option.map_some, Cache.overwrite_eq h.valid hl
                (Option.some.inj htarget ▸ htag)]
              simp [Untimed.perform, Bus.Request.toBeat, hwe, Untimed.writeWord, Cache.target]
            · have hother : s.cache.writesLine bus i = false := by
                simp [Cache.writesLine, Ne.symm hline]
              have hkeep : i ≠ (s.cache.geometry.layout.split bus.adr).line := hline
              rw [hother]
              simp [Untimed.perform, Bus.Request.toBeat, hwe, Untimed.writeWord, hkeep]
  blocks addr haddr := by
    have hstore : (s.next bus).link.store = s.link.store := MemoryStore.clock_check h.serves hs
    have hblocks : (s.advance bus u).blocks = u.blocks := by
      rw [advance, hs]
      dsimp only
      split
      · exact Untimed.blocks_perform ..
      · split <;> rfl
    rw [cache_next, Cache.geometry_next] at haddr
    rw [hstore, hblocks, hu.blocks addr haddr]
  log := by
    have hlog : (s.advance bus u).log = u.log := by
      rw [advance, hs]
      dsimp only
      split
      · exact Untimed.log_perform ..
      · split <;> rfl
    rw [log_next_check h.watches hs, hlog, hu.log]
  counters := by
    have hcounters : (s.next bus).cache.counters = s.cache.countCheck bus := by
      rw [cache_next, Cache.next_check hs]
      rfl
    rw [hcounters, s.cache.timeless_countCheck, hu.counters, advance, hs]
    dsimp only
    split
    · rw [Untimed.counters_perform, Bus.Request.we_toBeat]
    · split <;> rfl

theorem Shows.next_evict (hu : s.Shows u) (h : s.InStep) {p : Progress} (hs : s.cache.state = .evict p)
    (bus : Bus.Request) : (s.next bus).Shows (s.advance bus u) where
  lines i hi := by
    have hlines : (s.advance bus u).lines = u.lines := by
      rw [advance, hs]
      dsimp only
      split <;> rfl
    rw [cache_next, Cache.geometry_next] at hi
    rw [cache_next, Cache.next_evict hs, Cache.line?_evictEdge, hlines, hu.lines i hi]
  blocks addr haddr := by
    rw [cache_next, Cache.geometry_next] at haddr
    have hvictim := hu.victim h hs
    have hold := hu.blocks addr haddr
    rw [advance, hs]
    dsimp only
    obtain ⟨_, ⟨hnone, hsame⟩ | ⟨hsome, hsame⟩⟩ := MemoryStore.clock_evict h.serves hs
    · have hwrite : s.transfers.write = none := hnone
      rw [hwrite]
      exact (hsame.readBlock_eq addr).trans hold
    · have hwrite : s.transfers.write = some s.cache.evictBeat := hsome
      have hcommand : s.cache.evictCommand.addr < 2 ^ s.cache.geometry.layout.blockBits :=
        s.cache.geometry.layout.blockAddr_lt ..
      refine (hsame.readBlock_eq addr).trans ?_
      rw [h.fits.readBlock_writeBlock_of_lt hcommand haddr h.valid.length_out, hwrite, hold]
      simp only [Option.isSome_some, if_true, Untimed.writeBack, hvictim]
      rfl
  log := by
    have hvictim := hu.victim h hs
    rw [log_next_evict h.watches hs, h.files_evict hs, advance, hs]
    dsimp only
    cases s.transfers.write.isSome with
    | false => exact hu.log
    | true =>
        simp [Untimed.writeBack, hvictim, hu.log, Cache.evictOperation, Cache.evictCommand, Cache.evictBeat,
          Cache.loaded, Operation.timeless]
  counters := by
    have hcounters : (s.next bus).cache.counters = s.cache.countStall s.transfers := by
      rw [cache_next, Cache.next_evict hs]
      rfl
    have hread : s.transfers.read = none := Cache.resolve_evict hs _
    have hwrite : ∀ beat ∈ s.transfers.write, beat = s.cache.evictBeat := by
      obtain ⟨_, ⟨hnone, _⟩ | ⟨hsome, _⟩⟩ := MemoryStore.clock_evict h.serves hs
      · have hnone : s.transfers.write = none := hnone
        simp [hnone]
      · have hsome : s.transfers.write = some s.cache.evictBeat := hsome
        simp [hsome]
    rw [hcounters, s.cache.timeless_countStall_evict hread hwrite, hu.counters, advance, hs]
    dsimp only
    split <;> rfl

theorem Shows.next_refill (hu : s.Shows u) (h : s.InStep) {p : Progress} (hs : s.cache.state = .refill p)
    (bus : Bus.Request) : (s.next bus).Shows (s.advance bus u) := by
  obtain ⟨_, hsame, hexchange⟩ := MemoryStore.clock_refill h.serves hs
  have hcommand := hu.blocks s.cache.refillCommand.addr (s.cache.geometry.layout.blockAddr_lt ..)
  have hread : s.transfers.read = none ∨ s.transfers.read = some (u.blocks s.cache.refillCommand.addr) := by
    rw [← hcommand]
    exact hexchange.imp_right And.right
  have hlength : (u.blocks s.cache.refillCommand.addr).length = s.cache.geometry.lineBytes := by
    rw [← hcommand]
    exact h.fits.length_readBlock _
  refine ⟨fun i hi => ?_, fun addr haddr => ?_, ?_, ?_⟩
  · rw [cache_next, Cache.geometry_next] at hi
    have htransfers : Transfers.resolve s.cache.linkRequest s.link.drive = s.transfers := rfl
    rw [cache_next, Cache.next_refill hs, Cache.line?_refillEdge, htransfers, advance, hs]
    dsimp only
    rcases hread with hnone | hsome
    · rw [hnone]
      exact hu.lines i hi
    · rw [hsome]
      dsimp only
      rw [h.valid.line?_install _ i hi, Block.fit_eq_self hlength, hu.lines i hi]
      by_cases hline : s.cache.missed.line = i
      · simp [Untimed.fill, hline, Cache.refillCommand]
      · simp [Untimed.fill, hline, Ne.symm hline]
  · rw [cache_next, Cache.geometry_next] at haddr
    have hblocks : (s.advance bus u).blocks = u.blocks := by
      rw [advance, hs]
      dsimp only
      split <;> rfl
    rw [hblocks, ← hu.blocks addr haddr]
    exact hsame.readBlock_eq addr
  · rw [log_next_refill h.watches hs, h.files_refill hs, advance, hs]
    dsimp only
    rcases hread with hnone | hsome
    · rw [hnone]
      exact hu.log
    · simp [hsome, Untimed.fill, hu.log, Cache.refillOperation, Cache.refillCommand, Operation.timeless]
  · have hcounters : (s.next bus).cache.counters = s.cache.countStall s.transfers := by
      rw [cache_next, Cache.next_refill hs, Cache.refillEdge]
      rfl
    have hwrite : s.transfers.write = none := by
      simp [transfers, Cache.linkRequest, hs, Cache.refillRequest, Transfers.resolve]
    have hblock : ∀ block ∈ s.transfers.read, block.length = s.cache.geometry.lineBytes := by
      intro block hblock
      rcases hread with hnone | hsome
      · rw [hnone] at hblock
        cases hblock
      · rw [hsome] at hblock
        cases hblock
        exact hlength
    rw [hcounters, s.cache.timeless_countStall_refill hwrite hblock, hu.counters, advance, hs]
    dsimp only
    split <;> rfl

/-- **One cycle**: with any request on the bus, any latencies and any contents of the store, the simulator
does what `advance` says. -/
theorem Shows.next (hu : s.Shows u) (h : s.InStep) (bus : Bus.Request) :
    (s.next bus).Shows (s.advance bus u) := by
  cases hs : s.cache.state with
  | check => exact hu.next_check h hs bus
  | evict p => exact hu.next_evict h hs bus
  | refill p => exact hu.next_refill h hs bus

end Simulator

end WriteBack
