import WriteBack.Proofs.Acceptance
import WriteBack.Proofs.Coherence

/-!
# WriteBack.Proofs.CoherentRun

The memory that a simulator holds, over a run. It starts as the contents of the store and changes by the
acknowledged write beats alone, in their order, whatever else happens on the bus (`coherent_memory`).
-/

namespace WriteBack

open Link

/-! ## The store of a configuration -/

/-- An accepted configuration fixes the blocks of the store and their addresses. -/
theorem Geometry.ofConfig_eq_ok {cache : Config.Cache} {backing : Config.Backing} {g : Geometry}
    (h : Geometry.ofConfig cache backing = .ok g) :
    g.lineBytes = backing.dataWidth.toNat / 8 ∧ g.layout.blockBits = backing.addrWidth.toNat := by
  have hr := requested_of_ofConfig h
  exact ⟨congrArg (· / 8) hr.backingWidth_eq, hr.blockBits_eq⟩

namespace MemoryStore

variable {L : Type}

/-- The empty store of a configuration, with any latencies. -/
def empty (backing : Config.Backing) (latency : L) : MemoryStore L where
  lineBytes := backing.dataWidth.toNat / 8
  addrWidth := backing.addrWidth.toNat
  latency

/-- A store after some writes to its blocks, each under a byte enable. -/
def preload (m : MemoryStore L) (writes : List (Nat × Block × Nat)) : MemoryStore L :=
  writes.foldl (fun m w => m.writeBlock w.1 w.2.1 w.2.2) m

/-- An empty store reads as zeros. -/
theorem readBlock_empty (backing : Config.Backing) (latency : L) (addr : Nat) :
    (empty backing latency).readBlock addr = Block.zeros (backing.dataWidth.toNat / 8) :=
  Std.TreeMap.getD_emptyc

/-- The empty store of an accepted configuration fits its cache. -/
theorem fits_empty {cache : Config.Cache} {backing : Config.Backing} {g : Geometry}
    (h : Geometry.ofConfig cache backing = .ok g) (latency : L) : (empty backing latency).Fits g where
  addrWidth_eq := (Geometry.ofConfig_eq_ok h).2.symm
  length_readBlock addr := by
    rw [readBlock_empty, Block.length_zeros, (Geometry.ofConfig_eq_ok h).1]

/-- A store that fits still does after blocks were written into it. -/
theorem Fits.preload {m : MemoryStore L} {g : Geometry} (h : m.Fits g)
    (writes : List (Nat × Block × Nat)) : (m.preload writes).Fits g := by
  induction writes generalizing m with
  | nil => exact h
  | cons w writes ih => exact ih (h.writeBlock ..)

/-- Writing blocks into a store from outside gives it no command. -/
theorem pending_preload (m : MemoryStore L) (writes : List (Nat × Block × Nat)) :
    (m.preload writes).pending = m.pending := by
  induction writes generalizing m with
  | nil => rfl
  | cons w writes ih => exact ih (m.writeBlock ..)

end MemoryStore

/-- A cold cache agrees with a store that has zeros where the cache does. -/
theorem coherent_ofGeometry {L : Type} {g : Geometry} {m : MemoryStore L} (hfits : m.Fits g)
    (hpending : m.pending = none)
    (hzero : ∀ line < g.lines,
      m.readBlock (g.layout.blockAddr line g.layout.tagMask) = Block.zeros g.lineBytes) :
    Coherent (.ofGeometry g) m where
  valid := Cache.valid_ofGeometry g
  fits := hfits
  serves := hpending
  backed {i l} hl _ := by
    have hi : i < g.lines := (Cache.line?_eq_some.mp hl).1
    rw [Cache.line?_ofGeometry g hi] at hl
    rw [← Option.some.inj hl]
    exact hzero i hi

/-- The words behind a cold cache are those of the store. -/
theorem image_ofGeometry {L : Type} {g : Geometry} {m : MemoryStore L}
    (hzero : ∀ line < g.lines,
      m.readBlock (g.layout.blockAddr line g.layout.tagMask) = Block.zeros g.lineBytes) (adr : Nat) :
    image (.ofGeometry g) m adr =
      Block.word g.busBytes (g.layout.split adr).offset
        (m.readBlock (g.layout.blockAddr (g.layout.split adr).line (g.layout.split adr).tag)) := by
  have hline := g.split_line_lt adr
  have hblock : blockAt (.ofGeometry g) m (g.layout.split adr).line (g.layout.split adr).tag =
      m.readBlock (g.layout.blockAddr (g.layout.split adr).line (g.layout.split adr).tag) := by
    rw [blockAt_eq (Cache.line?_ofGeometry g hline)]
    dsimp only
    split
    · next ht => rw [← ht, hzero _ hline]
    · rfl
  exact congrArg (Block.word g.busBytes (g.layout.split adr).offset) hblock

namespace Simulator

variable {L : Type}

/-! ## The memory of a run -/

/-- The words that a simulator holds. -/
def image (s : Simulator (MemoryStore L)) : Nat → Nat := WriteBack.image s.cache s.link.store

/-- A memory of words after the acknowledged write beats of some cycles. -/
def written (g : Geometry) (words : Nat → Nat) (cycles : List (Cycle (MemoryStore L))) : Nat → Nat :=
  cycles.foldl (fun words c =>
    if c.response.ack = true ∧ c.bus.we = true then g.update words c.bus.adr c.bus.sel c.bus.datW
    else words) words

/-- A cycle that acknowledges a write adds the write, and no other cycle changes a word. -/
theorem written_append (g : Geometry) (words : Nat → Nat) (cycles : List (Cycle (MemoryStore L)))
    (c : Cycle (MemoryStore L)) :
    written g words (cycles ++ [c]) =
      if c.response.ack = true ∧ c.bus.we = true then
        g.update (written g words cycles) c.bus.adr c.bus.sel c.bus.datW
      else written g words cycles := by
  rw [written, List.foldl_append]
  rfl

/-- A fresh simulator of a cold cache in front of a store with the given contents. -/
def ofContents (config : Config) (g : Geometry) (latency : L) (contents : List (Nat × Block × Nat)) :
    Simulator (MemoryStore L) :=
  ofStore (.ofGeometry g) ((MemoryStore.empty config.backing latency).preload contents) config.general

/-- An empty store holds zeros. -/
theorem readBlock_ofContents_nil {config : Config} {g : Geometry}
    (hg : Geometry.ofConfig config.cache config.backing = .ok g) (latency : L) (addr : Nat) :
    (ofContents config g latency []).link.store.readBlock addr = Block.zeros g.lineBytes := by
  rw [(Geometry.ofConfig_eq_ok hg).1]
  exact MemoryStore.readBlock_empty ..

/-- What holds wherever a run leads. -/
structure Sound (s : Simulator (MemoryStore L)) : Prop where
  watches : s.link.monitor.Watches s.cache
  coherent : Coherent s.cache s.link.store

/-- A fresh simulator is sound when its store has zeros where the cold cache does. -/
theorem sound_ofContents {config : Config} {g : Geometry}
    (hg : Geometry.ofConfig config.cache config.backing = .ok g) (latency : L)
    (contents : List (Nat × Block × Nat))
    (hzero : ∀ line < g.lines, (ofContents config g latency contents).link.store.readBlock
      (g.layout.blockAddr line g.layout.tagMask) = Block.zeros g.lineBytes) :
    (ofContents config g latency contents).Sound where
  watches := watches_ofStore g _ config.general
  coherent := coherent_ofGeometry ((MemoryStore.fits_empty hg latency).preload contents)
    (MemoryStore.pending_preload _ contents) hzero

/-! ## One cycle -/

variable [LatencyModel L]

/-- A sound simulator is sound after any cycle. -/
theorem Sound.next {s : Simulator (MemoryStore L)} (h : s.Sound) (bus : Bus.Request) :
    (s.next bus).Sound where
  watches := (Monitor.watches_next h.watches bus s.link.drive).2
  coherent := (h.coherent.next bus).1

/-- What a cycle does to the image: an acknowledged write is merged in. -/
theorem Sound.image_next {s : Simulator (MemoryStore L)} (h : s.Sound) (bus : Bus.Request) :
    (s.next bus).image =
      if (s.cache.busResponse bus).ack = true ∧ bus.we = true then
        s.cache.geometry.update s.image bus.adr bus.sel bus.datW
      else s.image :=
  (h.coherent.next bus).2

/-! ## Runs -/

/-- A sound simulator is sound after any run. -/
theorem Trace.sound {start s : Simulator (MemoryStore L)} {cycles : List (Cycle (MemoryStore L))}
    (h : Trace start cycles s) (hstart : start.Sound) : s.Sound :=
  h.invariant hstart fun _ bus hs => hs.next bus

/-- After a run, the image is the first one with the acknowledged writes. -/
theorem Trace.image_eq {start s : Simulator (MemoryStore L)} {cycles : List (Cycle (MemoryStore L))}
    (h : Trace start cycles s) (hstart : start.Sound) :
    s.image = written start.cache.geometry start.image cycles := by
  induction h with
  | nil => rfl
  | snoc ht hstep ih =>
      obtain ⟨_, _, rfl, rfl⟩ := run_tick_eq_ok.mp hstep
      rw [(ht.sound hstart).image_next, written_append, ← ih, ht.geometry_eq]

/-- **A cache with its store is a memory**, for every configuration, every latency model, every content of
the store that has zeros where the cold cache does, and every sequence of requests. Wherever a run leads:

* the memory is the one at the start with the acknowledged write beats merged in, in their order;
* every acknowledged read returned the word that the memory held in its cycle;
* unless the cycles are used up, the run goes on with any request. -/
theorem coherent_memory {config : Config} {g : Geometry}
    (hg : Geometry.ofConfig config.cache config.backing = .ok g) (latency : L)
    (contents : List (Nat × Block × Nat))
    (hzero : ∀ line < g.lines, (ofContents config g latency contents).link.store.readBlock
      (g.layout.blockAddr line g.layout.tagMask) = Block.zeros g.lineBytes)
    {cycles : List (Cycle (MemoryStore L))} {s : Simulator (MemoryStore L)}
    (h : Trace (ofContents config g latency contents) cycles s) :
    s.image = written g (ofContents config g latency contents).image cycles ∧
      (∀ c ∈ cycles, c.response.ack = true → c.bus.we = false →
        c.response.datR = c.before.image (c.bus.adr &&& g.layout.addrMask)) ∧
      (s.cycle < s.maxCycles → ∀ bus, ∃ s', (tick bus).run s = .ok (s.cache.busResponse bus) s') := by
  have hstart := sound_ofContents hg latency contents hzero
  refine ⟨h.image_eq hstart, fun c hc hack hwe => ?_, fun hlt bus => ⟨s.next bus, ?_⟩⟩
  · obtain ⟨earlier, later, rfl⟩ := List.append_of_mem hc
    obtain ⟨hearlier, hstep, _⟩ := h.of_mem
    obtain ⟨_, _, hresponse, _⟩ := run_tick_eq_ok.mp hstep
    have hsound := hearlier.sound hstart
    have hgeometry : c.before.cache.geometry = g := hearlier.geometry_eq
    rw [hresponse] at hack ⊢
    rw [hsound.coherent.datR_eq hack hwe, g.layout.and_addrMask, ← hgeometry]
    exact (image_clip ..).symm
  · rw [run_tick_of_watches (h.sound hstart).watches, if_neg (Nat.not_le.mpr hlt)]

/-- A configuration with the geometry `tiny`. -/
def tinyConfig : Config where
  cache := { sizeBytes := 4, dataWidth := 16 }
  backing := { addrWidth := 2, dataWidth := 32 }

theorem ofConfig_tinyConfig : Geometry.ofConfig tinyConfig.cache tinyConfig.backing = .ok tiny := rfl

/-- A run that fetches a block of the store, writes one granule of it and then asks for another block: the
write is in the memory while its line waits to be written back. -/
theorem coherent_memory_tiny :
    ∃ cycles s,
      Trace (ofContents tinyConfig tiny (Timing.fixed 1) [(0, [1, 2, 3, 4], 15)]) cycles s ∧
      s.cache.state = .evict {} ∧
      written tiny (ofContents tinyConfig tiny (Timing.fixed 1) [(0, [1, 2, 3, 4], 15)]).image cycles 1 =
        0x04cd := by
  obtain ⟨cycles, ht, _⟩ := exists_trace tiny
    (ofContents tinyConfig tiny (Timing.fixed 1) [(0, [1, 2, 3, 4], 15)]).link.store tinyConfig.general
    (List.replicate 9 (.read 0 3) ++ [.write 1 0xabcd 1, .write 1 0xabcd 1, .read 4 3, .read 4 3])
    (by decide)
  obtain ⟨hwritten, _⟩ := coherent_memory ofConfig_tinyConfig (Timing.fixed 1)
    [(0, [1, 2, 3, 4], 15)] (by decide +kernel) ht
  refine ⟨cycles, _, ht, by decide +kernel, ?_⟩
  rw [← hwritten]
  decide +kernel

end Simulator

end WriteBack
