import WriteBack.Proofs.CacheInvariant
import WriteBack.Proofs.Protocol

/-!
# WriteBack.Proofs.Service

A memory store behind a cache, over one cycle. The store takes a data beat only after its command, so of the
handshakes of an operation the command always completes first (`MemoryStore.Serves`). From that follows what
a cycle does to the blocks: an eviction writes the whole victim once (`MemoryStore.clock_evict`), a refill
reads the requested block (`MemoryStore.clock_refill`), and no block changes otherwise.
-/

namespace WriteBack

open Link

namespace MemoryStore

variable {L : Type}

/-! ## The blocks -/

/-- The blocks are as long as the lines of the geometry, and their addresses as wide. -/
structure Fits (m : MemoryStore L) (g : Geometry) : Prop where
  addrWidth_eq : m.addrWidth = g.layout.blockBits
  length_readBlock : ∀ addr, (m.readBlock addr).length = g.lineBytes

/-- Both stores have the same shape and the same blocks. -/
structure SameBlocks (m m' : MemoryStore L) : Prop where
  addrWidth_eq : m'.addrWidth = m.addrWidth
  readBlock_eq : ∀ addr, m'.readBlock addr = m.readBlock addr

theorem SameBlocks.fits {m m' : MemoryStore L} (h : SameBlocks m m') {g : Geometry} (hf : m.Fits g) :
    m'.Fits g where
  addrWidth_eq := h.addrWidth_eq.trans hf.addrWidth_eq
  length_readBlock addr := by
    rw [h.readBlock_eq]
    exact hf.length_readBlock addr

section Fits

variable {m : MemoryStore L} {g : Geometry}

/-- A block address is its own key. -/
theorem Fits.key_of_lt (h : m.Fits g) {addr : Nat} (haddr : addr < 2 ^ g.layout.blockBits) :
    m.key addr = addr := by
  have hle : g.layout.blockBits ≤ 64 := Nat.le_trans (Nat.sub_le ..) g.layout.width_le
  rw [key, h.addrWidth_eq, lowBits_of_le hle, Nat.mod_eq_of_lt haddr]

theorem Fits.writeBlock (h : m.Fits g) (addr : Nat) (data : Block) (byteEnable : Nat) :
    (m.writeBlock addr data byteEnable).Fits g where
  addrWidth_eq := h.addrWidth_eq
  length_readBlock a := by
    rw [readBlock_writeBlock]
    split
    · rw [Block.length_merge, h.length_readBlock]
    · exact h.length_readBlock a

/-- Writing a block as a whole replaces it and no other. -/
theorem Fits.readBlock_writeBlock_of_lt (h : m.Fits g) {addr a : Nat}
    (haddr : addr < 2 ^ g.layout.blockBits) (ha : a < 2 ^ g.layout.blockBits) {data : Block}
    (hdata : data.length = g.lineBytes) :
    (m.writeBlock addr data g.fullByteEnable).readBlock a = if a = addr then data else m.readBlock a := by
  have hmerge : Block.merge 1 g.fullByteEnable data (m.readBlock addr) = data := by
    rw [Geometry.fullByteEnable]
    exact Block.merge_lowMask (by decide) g.lineBytes_le (by rw [hdata, Nat.mul_one])
      (by rw [h.length_readBlock, Nat.mul_one])
  simp only [MemoryStore.readBlock_writeBlock, h.key_of_lt haddr, h.key_of_lt ha, hmerge, eq_comm]

/-- Writing a line as a whole replaces its block and no other. -/
theorem Fits.readBlock_writeBlock (h : m.Fits g) {line tag line' tag' : Nat} (hline : line < g.lines)
    (htag : tag < 2 ^ g.layout.tagBits) (hline' : line' < g.lines) (htag' : tag' < 2 ^ g.layout.tagBits)
    {data : Block} (hdata : data.length = g.lineBytes) :
    (m.writeBlock (g.layout.blockAddr line tag) data g.fullByteEnable).readBlock
        (g.layout.blockAddr line' tag') =
      if line = line' ∧ tag = tag' then data else m.readBlock (g.layout.blockAddr line' tag') := by
  have haddr := g.layout.blockAddr_lt line tag
  have haddr' := g.layout.blockAddr_lt line' tag'
  rw [g.lines_eq] at hline hline'
  simp only [h.readBlock_writeBlock_of_lt haddr haddr' hdata,
    g.layout.blockAddr_inj hline' hline htag' htag, eq_comm]

end Fits

/-! ## The operation in progress -/

/-- The store and the cache agree on the operation: a beat never crosses before its command, and the store
waits for a beat exactly when the command has been taken and the beat has not. -/
def Serves (m : MemoryStore L) (c : Cache) : Prop :=
  match c.state with
  | .check => m.pending = none
  | .evict p => (p.beat = true → p.command = true) ∧
      m.pending.map Pending.command = if p.command && !p.beat then some c.evictCommand else none
  | .refill p => (p.beat = true → p.command = true) ∧
      m.pending.map Pending.command = if p.command && !p.beat then some c.refillCommand else none

/-- An idle store serves a cache in which no handshake has completed. -/
theorem serves_idle {m : MemoryStore L} {c : Cache} (hm : m.pending = none)
    (hs : c.state = .check ∨ c.state = .evict {} ∨ c.state = .refill {}) : m.Serves c := by
  rcases hs with hs | hs | hs <;> rw [Serves, hs] <;> simp [hm]

/-- The stages of an operation: the store is idle, then it has the command for a while, then it is idle again. -/
theorem stages {p : Progress} {pending : Option Pending} {command : Command}
    (horder : p.beat = true → p.command = true)
    (hpending : pending.map Pending.command = if p.command && !p.beat then some command else none) :
    (p = {} ∧ pending = none) ∨ (p = ⟨true, false⟩ ∧ ∃ wait, pending = some ⟨command, wait⟩) ∨
      (p = ⟨true, true⟩ ∧ pending = none) := by
  obtain ⟨taken, beat⟩ := p
  cases taken with
  | false =>
      cases beat with
      | true => exact absurd (horder rfl) (by decide)
      | false => exact .inl ⟨rfl, by simpa using hpending⟩
  | true =>
      cases beat with
      | true => exact .inr (.inr ⟨rfl, by simpa using hpending⟩)
      | false =>
          obtain ⟨⟨_, wait⟩, rfl, rfl⟩ : ∃ q, pending = some q ∧ q.command = command := by
            simpa using hpending
          exact .inr (.inl ⟨rfl, wait, rfl⟩)

/-- What goes across between a cache and its store in one cycle. -/
def exchange (m : MemoryStore L) (c : Cache) : Transfers := .resolve c.linkRequest m.respond

variable [LatencyModel L]

/-- A cycle without a command on offer leaves an idle store as it is. -/
theorem clock_check {m : MemoryStore L} {c : Cache} (h : m.Serves c) (hs : c.state = .check) :
    m.clock (m.exchange c) = m := by
  rw [Serves, hs] at h
  obtain ⟨lineBytes, addrWidth, blocks, latency, pending, reads, writes⟩ := m
  subst h
  simp [exchange, Cache.linkRequest, hs, Transfers.resolve, respond, clock, countDown]

/-- A cycle of an eviction. The blocks change when the beat crosses, and then by the whole victim. -/
theorem clock_evict {m : MemoryStore L} {c : Cache} {p : Progress} (h : m.Serves c)
    (hs : c.state = .evict p) :
    (m.clock (m.exchange c)).Serves (c.evictEdge p (m.exchange c)) ∧
      (((m.exchange c).write = none ∧ SameBlocks m (m.clock (m.exchange c))) ∨
        ((m.exchange c).write = some c.evictBeat ∧
          SameBlocks (m.writeBlock c.evictCommand.addr c.data.out c.geometry.fullByteEnable)
            (m.clock (m.exchange c)))) := by
  rw [Serves, hs] at h
  obtain ⟨lineBytes, addrWidth, blocks, latency, pending, reads, writes⟩ := m
  simp only [exchange, Cache.linkRequest, hs]
  rcases stages h.1 h.2 with ⟨rfl, rfl⟩ | ⟨rfl, wait, rfl⟩ | ⟨rfl, rfl⟩
  · exact ⟨⟨fun _ => rfl, rfl⟩, .inl ⟨rfl, rfl, fun _ => rfl⟩⟩
  · cases wait with
    | zero => exact ⟨⟨fun _ => rfl, rfl⟩, .inr ⟨rfl, rfl, fun _ => rfl⟩⟩
    | succ n => exact ⟨⟨by simp, rfl⟩, .inl ⟨rfl, rfl, fun _ => rfl⟩⟩
  · exact ⟨serves_idle rfl (.inr (.inr rfl)), .inl ⟨rfl, rfl, fun _ => rfl⟩⟩

/-- A cycle of a refill. The blocks stay as they are, and the beat is the requested one. -/
theorem clock_refill {m : MemoryStore L} {c : Cache} {p : Progress} (h : m.Serves c)
    (hs : c.state = .refill p) :
    (m.clock (m.exchange c)).Serves (c.refillEdge p (m.exchange c)) ∧
      SameBlocks m (m.clock (m.exchange c)) ∧
      ((m.exchange c).read = none ∨
        (p.beat = false ∧ (m.exchange c).read = some (m.readBlock c.refillCommand.addr))) := by
  rw [Serves, hs] at h
  obtain ⟨lineBytes, addrWidth, blocks, latency, pending, reads, writes⟩ := m
  simp only [exchange, Cache.linkRequest, hs]
  rcases stages h.1 h.2 with ⟨rfl, rfl⟩ | ⟨rfl, wait, rfl⟩ | ⟨rfl, rfl⟩
  · exact ⟨⟨fun _ => rfl, rfl⟩, ⟨rfl, fun _ => rfl⟩, .inl rfl⟩
  · cases wait with
    | zero => exact ⟨⟨fun _ => rfl, rfl⟩, ⟨rfl, fun _ => rfl⟩, .inr ⟨rfl, rfl⟩⟩
    | succ n => exact ⟨⟨by simp, rfl⟩, ⟨rfl, fun _ => rfl⟩, .inl rfl⟩
  · exact ⟨serves_idle rfl (.inl rfl), ⟨rfl, fun _ => rfl⟩, .inl rfl⟩

end MemoryStore

end WriteBack
