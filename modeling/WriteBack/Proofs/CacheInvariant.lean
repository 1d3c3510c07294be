import WriteBack.Proofs.CacheLines

/-!
# WriteBack.Proofs.CacheInvariant

What the registers of a cache say about its lines, in every state that it can reach. The read registers show
an older cycle, so a lookup is sound only because of what the cache remembers about them:

* not stale, they hold the loaded line exactly (`Valid.fresh`);
* stale after a request, they still hold its tag, since only a hit can have made them stale;
* while the cache waits on the store, they hold the victim, and nothing on the bus reaches them.

`Valid.next` carries this over a cycle with any request and any answer of the store. From it follow what an
acknowledgement and a miss mean for the line looked up (`Valid.line?_of_acks`, `Valid.line?_of_misses`).
-/

namespace WriteBack.Cache

/-! ## What a lookup decides -/

section Lookup

variable (c : Cache) (bus : Bus.Request)

/-- When a request is acknowledged: it is presented for the second cycle, its line has been read and its tag is there.
A read also needs the data to be fresh. -/
theorem acks_iff :
    c.acks bus = true ↔
      (bus.isActive = true ∧ c.sampled.isActive = true) ∧ c.loadedLine = (c.target bus).line ∧
        c.tags.out.tag = (c.target bus).tag ∧ (c.stale = false ∨ bus.we = true) := by
  simp only [acks, compares, usable, holdsTarget, tagMatches, Bool.and_eq_true, Bool.or_eq_true,
    beq_iff_eq, Bool.not_eq_true']
  grind

/-- When a request misses: its line has been read, freshly, and another tag is there. -/
theorem misses_iff :
    c.misses bus = true ↔
      (bus.isActive = true ∧ c.sampled.isActive = true) ∧ c.loadedLine = (c.target bus).line ∧
        c.stale = false ∧ c.tags.out.tag ≠ (c.target bus).tag := by
  simp only [misses, compares, holdsTarget, tagMatches, Bool.and_eq_true, beq_iff_eq, Bool.not_eq_true',
    beq_eq_false_iff_ne, and_assoc]

theorem writes_iff : c.writes bus = true ↔ c.acks bus = true ∧ bus.we = true := by
  simp only [writes, Bool.and_eq_true]

/-- When a line is written: by an acknowledged write to it. -/
theorem writesLine_iff (line : Nat) :
    c.writesLine bus line = true ↔
      c.acks bus = true ∧ bus.we = true ∧ (c.target bus).line = line := by
  simp only [writesLine, writes, Bool.and_eq_true, beq_iff_eq, and_assoc]

/-- A miss is no hit, and the read registers keep the victim. -/
theorem acks_loads_of_misses (h : c.misses bus = true) :
    c.acks bus = false ∧ c.loads bus = false := by
  obtain ⟨⟨_, hs⟩, hline, hstale, htag⟩ := (c.misses_iff bus).mp h
  have hacks : c.acks bus = false := by
    rw [← Bool.not_eq_true, acks_iff]
    exact fun ha => htag ha.2.2.1
  refine ⟨hacks, ?_⟩
  simp [loads, hacks, hs, usable, holdsTarget, hline, hstale]

/-- No request is acknowledged and misses at once. -/
theorem misses_eq_false_of_acks (h : c.acks bus = true) : c.misses bus = false := by
  rw [← Bool.not_eq_true]
  intro hmiss
  rw [(c.acks_loads_of_misses bus hmiss).1] at h
  cases h

/-- Unless it misses, a presented request always loads the read registers. -/
theorem loads_of_isActive (hactive : bus.isActive = true) (hmiss : c.misses bus = false) :
    c.loads bus = true := by
  simp only [misses, acks, compares, loads, usable, hactive, Bool.true_and] at hmiss ⊢
  revert hmiss
  cases c.sampled.isActive <;> cases c.holdsTarget bus <;> cases c.tagMatches bus <;>
    cases c.stale <;> cases bus.we <;> decide

/-- The bus hears an acknowledgement when the cache serves requests and the request hits. -/
theorem ack_busResponse :
    (c.busResponse bus).ack = true ↔ c.state = .check ∧ c.acks bus = true := by
  unfold busResponse
  cases c.state with
  | check => cases c.acks bus <;> simp
  | evict p => simp
  | refill p => simp

end Lookup

/-! ## The read registers after an edge -/

/-- An enabled read takes the line as it was before the edge. -/
theorem loaded_clockMemories_some {c : Cache} {line : Nat} {l : Line} (h : c.line? line = some l)
    (f : Option (Nat × (TagEntry → TagEntry))) (w : Option DataWrite) :
    (c.clockMemories (some line) f w).loaded = l := by
  obtain ⟨_, ht, hd⟩ := line?_eq_some.mp h
  have htags : (c.tags.clock (some line) f).out = ⟨l.tag, l.dirty⟩ := by
    rw [LineMemory.out_clock_some, ht, Option.getD_some]
  have hdata : (c.data.clock (some line) w).out = l.data := by
    show (c.data.toLineMemory.clock (some line) _).out = l.data
    rw [LineMemory.out_clock_some, hd, Option.getD_some]
  simp only [clockMemories, loaded, htags, hdata]

/-- A cycle that reads a line has it in the read registers after it. -/
theorem loaded_checkEdge_of_loads {c : Cache} {bus : Bus.Request} {l : Line}
    (hloads : c.loads bus = true) (h : c.line? (c.loadLine bus) = some l) :
    (c.checkEdge bus).loaded = l := by
  unfold checkEdge
  simp only [hloads, if_true]
  exact loaded_clockMemories_some h _ _

/-- A cycle that reads no line leaves the read registers. -/
theorem loaded_checkEdge_of_not_loads {c : Cache} {bus : Bus.Request} (hloads : c.loads bus = false) :
    (c.checkEdge bus).loaded = c.loaded := by
  unfold checkEdge
  simp only [hloads, Bool.false_eq_true, if_false]
  rfl

theorem tags_out_checkEdge_of_not_loads (c : Cache) (bus : Bus.Request) (hloads : c.loads bus = false) :
    (c.checkEdge bus).tags.out = c.tags.out := by
  unfold checkEdge
  simp only [hloads, Bool.false_eq_true, if_false]
  rfl

/-! ## What a miss leaves for the store -/

section Miss

variable (c : Cache)

/-- The address that missed is the requested one. -/
theorem missed_checkEdge_of_misses (bus : Bus.Request) (h : c.misses bus = true) :
    (c.checkEdge bus).missed = c.target bus := by
  have hsampled : (c.checkEdge bus).sampled.adr = bus.adr := by
    show (if c.misses bus then _ else _ : Sampled).adr = bus.adr
    rw [h]
    rfl
  rw [missed, hsampled]
  rfl

/-- The read registers keep the victim. -/
theorem loaded_checkEdge_of_misses (bus : Bus.Request) (h : c.misses bus = true) :
    (c.checkEdge bus).loaded = c.loaded :=
  loaded_checkEdge_of_not_loads (c.acks_loads_of_misses bus h).2

@[simp] theorem missed_evictEdge (p : Progress) (t : Link.Transfers) :
    (c.evictEdge p t).missed = c.missed := rfl

@[simp] theorem loaded_evictEdge (p : Progress) (t : Link.Transfers) :
    (c.evictEdge p t).loaded = c.loaded := rfl

@[simp] theorem missed_refillEdge (p : Progress) (t : Link.Transfers) :
    (c.refillEdge p t).missed = c.missed := by
  unfold refillEdge
  cases t.read <;> rfl

/-- While it waits on the store, the cache keeps the miss that it waits for. -/
theorem miss_kept_of_stalled (h : c.state.isStalled = true) (bus : Bus.Request) (link : Link.Response) :
    (c.next bus link).retrying = c.retrying ∧ (c.next bus link).missed = c.missed := by
  cases hs : c.state with
  | check => simp [hs, State.isStalled] at h
  | evict p => simp [next_evict hs]
  | refill p => simp [next_refill hs]

end Miss

/-! ## The invariant -/

/-- A missed request waits on the store: it is no longer presented, and the read registers hold the line
that it has to replace, under another tag. -/
structure Awaits (c : Cache) : Prop where
  inactive : c.sampled.isActive = false
  missed_line : c.missed.line = c.loadedLine
  tag_ne : c.tags.out.tag ≠ c.missed.tag

/-- What the registers say in each state. -/
def Settled (c : Cache) : Prop :=
  match c.state with
  | .check => c.sampled.isActive = true → ∃ l, c.line? c.loadedLine = some l ∧ l.tag = c.tags.out.tag
  | .evict _ => c.Awaits ∧ c.stale = false ∧ c.tags.out.dirty = true
  | .refill p => c.Awaits ∧ c.stale = p.beat

/-- The invariant of a cache. -/
structure Valid (c : Cache) : Prop where
  tags_size : c.tags.size = c.geometry.lines
  data_size : c.data.size = c.geometry.lines
  granuleBytes_eq : c.data.granuleBytes = c.geometry.granuleBytes
  length_out : c.data.out.length = c.geometry.lineBytes
  length_data : ∀ {i l}, c.line? i = some l → l.data.length = c.geometry.lineBytes
  tag_lt : ∀ {i l}, c.line? i = some l → l.tag < 2 ^ c.geometry.layout.tagBits
  loadedLine_lt : c.loadedLine < c.geometry.lines
  fresh : c.stale = false → c.line? c.loadedLine = some c.loaded
  settled : c.Settled

namespace Valid

variable {c : Cache}

/-- Every line below the number of lines is there. -/
theorem exists_line (hv : c.Valid) {i : Nat} (hi : i < c.geometry.lines) : ∃ l, c.line? i = some l := by
  have ht : i < c.tags.cells.size := by rw [← hv.tags_size] at hi; exact hi
  have hd : i < c.data.cells.size := by rw [← hv.data_size] at hi; exact hi
  exact ⟨⟨c.tags.cells[i].tag, c.tags.cells[i].dirty, c.data.cells[i]⟩,
    line?_eq_some.mpr ⟨hi, Array.getElem?_eq_getElem ht, Array.getElem?_eq_getElem hd⟩⟩

/-- While requests are served, the read registers hold the tag of the line that was read. -/
theorem check_settled (hv : c.Valid) (hs : c.state = .check) (ha : c.sampled.isActive = true) :
    ∃ l, c.line? c.loadedLine = some l ∧ l.tag = c.tags.out.tag := by
  have h := hv.settled
  rw [Settled, hs] at h
  exact h ha

/-- While a line is evicted, the read registers hold it, dirty and fresh. -/
theorem evict_settled (hv : c.Valid) {p : Progress} (hs : c.state = .evict p) :
    c.Awaits ∧ c.stale = false ∧ c.tags.out.dirty = true := by
  have h := hv.settled
  rwa [Settled, hs] at h

/-- While a line is refilled, the read registers are fresh up to the read beat. -/
theorem refill_settled (hv : c.Valid) {p : Progress} (hs : c.state = .refill p) :
    c.Awaits ∧ c.stale = p.beat := by
  have h := hv.settled
  rwa [Settled, hs] at h

/-- **A hit**: the line looked up holds the requested block, and on a read the read registers show it. -/
theorem line?_of_acks (hv : c.Valid) (hs : c.state = .check) {bus : Bus.Request}
    (h : c.acks bus = true) :
    ∃ l, c.line? (c.target bus).line = some l ∧ l.tag = (c.target bus).tag ∧
      (bus.we = false → l = c.loaded) := by
  obtain ⟨⟨_, ha⟩, hline, htag, hstale⟩ := (c.acks_iff bus).mp h
  obtain ⟨l, hl, hlt⟩ := hv.check_settled hs ha
  refine ⟨l, hline ▸ hl, hlt.trans htag, fun hwe => ?_⟩
  have hf := hv.fresh (hstale.resolve_right (by simp [hwe]))
  rw [hl] at hf
  exact Option.some.inj hf

/-- **A miss**: the read registers show the line looked up, and it holds another block. -/
theorem line?_of_misses (hv : c.Valid) {bus : Bus.Request} (h : c.misses bus = true) :
    c.line? (c.target bus).line = some c.loaded ∧ c.loaded.tag ≠ (c.target bus).tag := by
  obtain ⟨_, hline, hstale, htag⟩ := (c.misses_iff bus).mp h
  exact ⟨hline ▸ hv.fresh hstale, htag⟩

/-- **The victim**: until the refill beat, the line that missed is the one that the read registers hold. -/
theorem line?_of_awaits (hv : c.Valid) (ha : c.Awaits) (hstale : c.stale = false) :
    c.line? c.missed.line = some c.loaded := by
  rw [ha.missed_line]
  exact hv.fresh hstale

/-! ## Every cycle keeps it -/

/-- The line at which a request loads the read registers. -/
theorem loadLine_lt (bus : Bus.Request) : c.loadLine bus < c.geometry.lines := by
  unfold loadLine
  split
  · exact c.geometry.split_line_lt _
  · exact c.geometry.split_line_lt _

/-- Read registers that are not stale after a cycle hold the line that they were read from. -/
theorem fresh_checkEdge (hv : c.Valid) (bus : Bus.Request) (h : (c.checkEdge bus).stale = false) :
    (c.checkEdge bus).line? (c.checkEdge bus).loadedLine = some (c.checkEdge bus).loaded := by
  have hstale : (c.checkEdge bus).stale =
      if c.loads bus then c.writesLine bus (c.loadLine bus)
      else c.stale || c.writesLine bus c.loadedLine := rfl
  have hline : (c.checkEdge bus).loadedLine = if c.loads bus then c.loadLine bus else c.loadedLine := rfl
  rw [hstale] at h
  rw [hline]
  cases hloads : c.loads bus with
  | true =>
      simp only [hloads, if_true] at h ⊢
      obtain ⟨l, hl⟩ := hv.exists_line (loadLine_lt bus)
      rw [line?_checkEdge, h, if_neg (by decide), loaded_checkEdge_of_loads hloads hl, hl]
  | false =>
      simp only [hloads, Bool.false_eq_true, if_false, Bool.or_eq_false_iff] at h ⊢
      rw [line?_checkEdge, h.2, if_neg (by decide), loaded_checkEdge_of_not_loads hloads, hv.fresh h.1]

/-- A cycle that serves requests leaves the cache settled, in whatever state it goes on. -/
theorem settled_checkEdge (hv : c.Valid) (hs : c.state = .check) (bus : Bus.Request) :
    (c.checkEdge bus).Settled := by
  have hsampled : (c.checkEdge bus).sampled =
      if c.misses bus then { adr := bus.adr } else ⟨bus.cyc, bus.stb, bus.adr⟩ := rfl
  have hline : (c.checkEdge bus).loadedLine = if c.loads bus then c.loadLine bus else c.loadedLine := rfl
  cases hmiss : c.misses bus with
  | true =>
      obtain ⟨_, hloads⟩ := c.acks_loads_of_misses bus hmiss
      obtain ⟨_, htarget, hstale, htag⟩ := (c.misses_iff bus).mp hmiss
      have hloaded : (c.checkEdge bus).tags.out = c.tags.out := c.tags_out_checkEdge_of_not_loads bus hloads
      have hmissed := c.missed_checkEdge_of_misses bus hmiss
      have hkeep : (c.checkEdge bus).stale = false := by
        show (if c.loads bus then _ else c.stale || c.writesLine bus c.loadedLine) = false
        simp [hloads, hstale, writesLine, writes, (c.acks_loads_of_misses bus hmiss).1]
      have hawaits : (c.checkEdge bus).Awaits := by
        refine ⟨?_, ?_, ?_⟩
        · rw [hsampled, hmiss]; rfl
        · rw [hmissed, hline, hloads]; exact htarget.symm
        · rw [hmissed, hloaded]; exact htag
      rw [Settled, state_checkEdge, hmiss]
      cases hdirty : c.tags.out.dirty with
      | true => exact ⟨hawaits, hkeep, hloaded ▸ hdirty⟩
      | false => exact ⟨hawaits, hkeep⟩
  | false =>
      rw [Settled, state_checkEdge, hmiss]
      intro hactive
      rw [hsampled, hmiss] at hactive
      have hloads := c.loads_of_isActive bus hactive hmiss
      obtain ⟨l, hl⟩ := hv.exists_line (loadLine_lt bus)
      have htags : (c.checkEdge bus).tags.out.tag = l.tag :=
        congrArg Line.tag (loaded_checkEdge_of_loads hloads hl)
      rw [hline, hloads, if_pos rfl, line?_checkEdge, hl, htags]
      cases hw : c.writesLine bus (c.loadLine bus) with
      | false => exact ⟨l, rfl, rfl⟩
      | true =>
          -- the write that meets the read is a hit, so it does not change the tag
          obtain ⟨hacks, _, htarget⟩ := (c.writesLine_iff bus _).mp hw
          obtain ⟨l', hl', htag, _⟩ := hv.line?_of_acks hs hacks
          rw [htarget, hl] at hl'
          exact ⟨_, rfl, (Option.some.inj hl' ▸ htag).symm⟩

/-- A cycle that serves requests keeps the invariant. -/
theorem checkEdge (hv : c.Valid) (hs : c.state = .check) (bus : Bus.Request) :
    (c.checkEdge bus).Valid where
  tags_size := (LineMemory.size_clock ..).trans hv.tags_size
  data_size := (LineMemory.size_clock ..).trans hv.data_size
  granuleBytes_eq := hv.granuleBytes_eq
  length_out := by
    cases hloads : c.loads bus with
    | true =>
        obtain ⟨l, hl⟩ := hv.exists_line (loadLine_lt bus)
        have hout : (c.checkEdge bus).data.out = l.data :=
          congrArg Line.data (loaded_checkEdge_of_loads hloads hl)
        rw [hout]
        exact hv.length_data hl
    | false =>
        have hout : (c.checkEdge bus).data.out = c.data.out :=
          congrArg Line.data (loaded_checkEdge_of_not_loads hloads)
        rw [hout]
        exact hv.length_out
  length_data {i l} hl := by
    rw [line?_checkEdge] at hl
    split at hl
    · obtain ⟨l', hl', rfl⟩ := Option.map_eq_some_iff.mp hl
      exact (Block.length_merge ..).trans (hv.length_data hl')
    · exact hv.length_data hl
  tag_lt {i l} hl := by
    rw [line?_checkEdge] at hl
    split at hl
    · obtain ⟨l', _, rfl⟩ := Option.map_eq_some_iff.mp hl
      exact c.geometry.layout.split_tag_lt _
    · exact hv.tag_lt hl
  loadedLine_lt := by
    show (if c.loads bus then c.loadLine bus else c.loadedLine) < c.geometry.lines
    split
    · exact loadLine_lt bus
    · exact hv.loadedLine_lt
  fresh := hv.fresh_checkEdge bus
  settled := hv.settled_checkEdge hs bus

/-- So does a cycle of an eviction. -/
theorem evictEdge (hv : c.Valid) {p : Progress} (hs : c.state = .evict p) (t : Link.Transfers) :
    (c.evictEdge p t).Valid where
  tags_size := hv.tags_size
  data_size := hv.data_size
  granuleBytes_eq := hv.granuleBytes_eq
  length_out := hv.length_out
  length_data hl := hv.length_data (c.line?_evictEdge p t _ ▸ hl)
  tag_lt hl := hv.tag_lt (c.line?_evictEdge p t _ ▸ hl)
  loadedLine_lt := hv.loadedLine_lt
  fresh := hv.fresh
  settled := by
    obtain ⟨⟨hinactive, hline, htag⟩, hstale, hdirty⟩ := hv.evict_settled hs
    have hawaits : (c.evictEdge p t).Awaits := ⟨hinactive, hline, htag⟩
    rw [Settled, state_evictEdge]
    cases p.isDone with
    | true => exact ⟨hawaits, hstale⟩
    | false => exact ⟨hawaits, hstale, hdirty⟩

/-- The mask of a whole line covers each of its granules. -/
theorem merge_fullMask (hv : c.Valid) {new old : Block} (hnew : new.length = c.geometry.lineBytes)
    (hold : old.length = c.geometry.lineBytes) :
    Block.merge c.data.granuleBytes c.data.fullMask new old = new := by
  rw [DataMemory.fullMask, hv.length_out, hv.granuleBytes_eq, c.geometry.merge_wholeLine hnew hold]

/-- A refill installs the block of the request, clean; one of another size is cut or padded with zeros. -/
theorem line?_install (hv : c.Valid) (block : Block) (i : Nat) (hi : i < c.geometry.lines) :
    (c.install block).line? i =
      if c.missed.line = i then some ⟨c.missed.tag, false, Block.fit c.geometry.lineBytes block⟩
      else c.line? i := by
  obtain ⟨l, hl⟩ := hv.exists_line hi
  rw [Cache.line?_install, hl, Option.map_some, refilled,
    hv.merge_fullMask (Block.length_fit ..) (hv.length_data hl)]

/-- A read beat makes the read registers stale, and its line is one of the geometry. -/
theorem install (hv : c.Valid) (hline : c.missed.line = c.loadedLine) (block : Block) :
    (c.install block).stale = true ∧ (c.install block).loaded = c.loaded ∧
      ∀ {i l}, (c.install block).line? i = some l →
        l.data.length = c.geometry.lineBytes ∧ l.tag < 2 ^ c.geometry.layout.tagBits := by
  refine ⟨?_, rfl, fun {i l} hl => ?_⟩
  · show (c.stale || c.missed.line == c.loadedLine) = true
    rw [hline, beq_self_eq_true, Bool.or_true]
  · have hi : i < c.geometry.lines := (line?_eq_some.mp hl).1
    rw [hv.line?_install block i hi] at hl
    split at hl
    · rw [← Option.some.inj hl]
      exact ⟨Block.length_fit .., c.geometry.layout.split_tag_lt _⟩
    · exact ⟨hv.length_data hl, hv.tag_lt hl⟩

/-- A cycle of a refill keeps the invariant. -/
theorem refillEdge (hv : c.Valid) {p : Progress} (hs : c.state = .refill p) (t : Link.Transfers) :
    (c.refillEdge p t).Valid := by
  obtain ⟨⟨hinactive, hline, htag⟩, hstale⟩ := hv.refill_settled hs
  cases hr : t.read with
  | none =>
      have hedge : c.refillEdge p t = { c with
          state := if p.isDone then .check else .refill ⟨p.command || t.command.isSome, p.beat⟩
          counters := c.countStall t } := by
        simp [Cache.refillEdge, hr]
      rw [hedge]
      refine ⟨hv.tags_size, hv.data_size, hv.granuleBytes_eq, hv.length_out, hv.length_data, hv.tag_lt,
        hv.loadedLine_lt, hv.fresh, ?_⟩
      unfold Settled
      cases p.isDone with
      | true => exact fun h => absurd (hinactive.symm.trans h) (by decide)
      | false => exact ⟨⟨hinactive, hline, htag⟩, hstale⟩
  | some block =>
      have hedge : c.refillEdge p t = { c.install block with
          state := if p.isDone then .check else .refill ⟨p.command || t.command.isSome, true⟩
          counters := c.countStall t } := by
        simp [Cache.refillEdge, hr]
      obtain ⟨hstale', _, hlines⟩ := hv.install hline block
      rw [hedge]
      refine ⟨(LineMemory.size_clock ..).trans hv.tags_size, (LineMemory.size_clock ..).trans hv.data_size,
        hv.granuleBytes_eq, hv.length_out, fun hl => (hlines hl).1, fun hl => (hlines hl).2,
        hv.loadedLine_lt, fun h => absurd (hstale'.symm.trans h) (by decide), ?_⟩
      unfold Settled
      cases p.isDone with
      | true => exact fun h => absurd (hinactive.symm.trans h) (by decide)
      | false => exact ⟨⟨hinactive, hline, htag⟩, hstale'⟩

/-- **The invariant is kept**: one cycle with any request and any answer of the store. -/
theorem next (hv : c.Valid) (bus : Bus.Request) (link : Link.Response) : (c.next bus link).Valid := by
  cases hs : c.state with
  | check => exact next_check hs bus link ▸ hv.checkEdge hs bus
  | evict p => exact next_evict hs bus link ▸ hv.evictEdge hs _
  | refill p => exact next_refill hs bus link ▸ hv.refillEdge hs _

end Valid

/-! ## A cold cache -/

/-- A line of a cold cache. -/
theorem line?_ofGeometry (g : Geometry) {i : Nat} (hi : i < g.lines) :
    (ofGeometry g).line? i = some ⟨g.layout.tagMask, g.dirtyInit, Block.zeros g.lineBytes⟩ := by
  refine line?_eq_some.mpr ⟨hi, ?_, ?_⟩
  · simp only [ofGeometry, LineMemory.replicate, LineMemory.peek?, Array.getElem?_replicate, if_pos hi]
  · simp only [ofGeometry, DataMemory.zeros, LineMemory.replicate, LineMemory.peek?,
      Array.getElem?_replicate, if_pos hi]

/-- The invariant holds of a cold cache. -/
theorem valid_ofGeometry (g : Geometry) : (ofGeometry g).Valid where
  tags_size := LineMemory.size_replicate ..
  data_size := LineMemory.size_replicate ..
  granuleBytes_eq := rfl
  length_out := Block.length_zeros _
  length_data hl := by
    rw [line?_ofGeometry g (line?_eq_some.mp hl).1] at hl
    rw [← Option.some.inj hl]
    exact Block.length_zeros _
  tag_lt hl := by
    rw [line?_ofGeometry g (line?_eq_some.mp hl).1] at hl
    rw [← Option.some.inj hl]
    exact g.layout.tagMask_lt
  loadedLine_lt := g.lines_pos
  fresh _ := line?_ofGeometry g g.lines_pos
  settled h := absurd (show false = true from h) (by decide)

end WriteBack.Cache
