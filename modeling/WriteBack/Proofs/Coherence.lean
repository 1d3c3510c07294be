import WriteBack.Proofs.FlatMemory
import WriteBack.Proofs.Service

/-!
# WriteBack.Proofs.Coherence

A cache and its store together are a memory of words. `image` is that memory: a word is in the line of its
address if the line holds its block, and in the store otherwise. Over any cycle, `image` changes by the write
that the cache acknowledges and by nothing else (`Coherent.next`), and a read that it acknowledges returns a
word of it (`Coherent.datR_eq`).

The reason is `Coherent`: a line that the next refill may drop is in the store as well. That is a clean line,
or the victim of a miss from its write beat on.
-/

namespace WriteBack

open Link

/-! ## The memory that both hold -/

section Image

variable {L : Type}

/-- The block of a line and a tag: the line if it holds that tag, and the block of the store otherwise. -/
def blockAt (c : Cache) (m : MemoryStore L) (line tag : Nat) : Block :=
  match c.line? line with
  | some l => if l.tag = tag then l.data else m.readBlock (c.geometry.layout.blockAddr line tag)
  | none => m.readBlock (c.geometry.layout.blockAddr line tag)

/-- The words that a cache and its store hold. -/
def image (c : Cache) (m : MemoryStore L) (adr : Nat) : Nat :=
  let a := c.geometry.layout.split adr
  Block.word c.geometry.busBytes a.offset (blockAt c m a.line a.tag)

/-- The block of a tag is the line if that is its tag, and the block of the store if not. -/
theorem blockAt_eq {c : Cache} {line : Nat} {l : Cache.Line} (h : c.line? line = some l)
    (m : MemoryStore L) (tag : Nat) :
    blockAt c m line tag =
      if l.tag = tag then l.data else m.readBlock (c.geometry.layout.blockAddr line tag) := by
  rw [blockAt, h]

/-- Words have their address modulo the number of words. -/
theorem image_clip (c : Cache) (m : MemoryStore L) (adr : Nat) :
    image c m (c.geometry.layout.clip adr) = image c m adr := by
  rw [image, c.geometry.layout.split_clip, image]

/-- Equal blocks make equal words. -/
theorem image_congr {c c' : Cache} {m m' : MemoryStore L} (hg : c'.geometry = c.geometry)
    (h : ∀ line tag, line < c.geometry.lines → tag < 2 ^ c.geometry.layout.tagBits →
      blockAt c' m' line tag = blockAt c m line tag) : image c' m' = image c m := by
  funext adr
  simp only [image, hg]
  rw [h _ _ (c.geometry.split_line_lt adr) (c.geometry.layout.split_tag_lt adr)]

end Image

/-! ## The invariant -/

/-- The line that missed is in the store, whatever its dirty bit says. -/
def Cache.flushed (c : Cache) : Bool :=
  match c.state with
  | .check => false
  | .evict p => p.beat
  | .refill _ => true

theorem Cache.flushed_checkEdge (c : Cache) (bus : Bus.Request) :
    (c.checkEdge bus).flushed = (c.misses bus && !c.tags.out.dirty) := by
  rw [flushed, state_checkEdge]
  cases c.misses bus <;> cases c.tags.out.dirty <;> rfl

theorem Cache.flushed_of_refill {c : Cache} {p : Progress} (hs : c.state = .refill p) :
    c.flushed = true := by
  rw [flushed, hs]

/-- A cache and its store agree wherever the cache may drop a line. -/
structure Coherent {L : Type} (c : Cache) (m : MemoryStore L) : Prop where
  valid : c.Valid
  fits : m.Fits c.geometry
  serves : m.Serves c
  backed : ∀ {i l}, c.line? i = some l → l.dirty = false ∨ (c.flushed = true ∧ c.missed.line = i) →
    m.readBlock (c.geometry.layout.blockAddr i l.tag) = l.data

namespace Coherent

variable {L : Type} {c : Cache} {m : MemoryStore L}

/-! ## A cycle that serves requests -/

/-- A cycle that serves requests keeps the cache and the store coherent. -/
theorem checkEdge (h : Coherent c m) (hs : c.state = .check) (bus : Bus.Request) :
    Coherent (c.checkEdge bus) m where
  valid := h.valid.checkEdge hs bus
  fits := h.fits
  serves := by
    have hpending := h.serves
    rw [MemoryStore.Serves, hs] at hpending
    refine MemoryStore.serves_idle hpending ?_
    rw [Cache.state_checkEdge]
    cases c.misses bus <;> cases c.tags.out.dirty <;> simp
  backed {i l} hl hcond := by
    rw [Cache.flushed_checkEdge] at hcond
    rw [Cache.line?_checkEdge] at hl
    by_cases hw : c.writesLine bus i = true
    · -- a written line is dirty, and a request that hits does not miss
      rw [if_pos hw] at hl
      obtain ⟨l', _, rfl⟩ := Option.map_eq_some_iff.mp hl
      have hacks := ((c.writesLine_iff bus i).mp hw).1
      have hmiss := c.misses_eq_false_of_acks bus hacks
      simp [Cache.overwrite, hmiss] at hcond
    · rw [if_neg hw] at hl
      rcases hcond with hclean | ⟨hflushed, hline⟩
      · exact h.backed hl (.inl hclean)
      · rw [Bool.and_eq_true, Bool.not_eq_true'] at hflushed
        rw [c.missed_checkEdge_of_misses bus hflushed.1] at hline
        have hloaded := (h.valid.line?_of_misses hflushed.1).1
        rw [hline, hl] at hloaded
        have hclean : l.dirty = false := by
          rw [Option.some.inj hloaded]
          exact hflushed.2
        exact h.backed hl (.inl hclean)

/-- Every block is as long as a line. -/
theorem length_blockAt (h : Coherent c m) (line tag : Nat) :
    (blockAt c m line tag).length = c.geometry.lineBytes := by
  cases hl : c.line? line with
  | none => rw [blockAt, hl, h.fits.length_readBlock]
  | some l =>
      rw [blockAt_eq hl]
      split
      · exact h.valid.length_data hl
      · exact h.fits.length_readBlock _

/-- A write that hits changes the block of its line. -/
theorem blockAt_checkEdge (h : Coherent c m) (hs : c.state = .check) {bus : Bus.Request}
    (hw : c.writes bus = true) (line tag : Nat) :
    blockAt (c.checkEdge bus) m line tag =
      if line = (c.target bus).line ∧ tag = (c.target bus).tag then
        Block.merge c.geometry.granuleBytes (c.writeMask bus)
          (Block.fill c.geometry.busBytes c.geometry.wordsPerLine bus.datW) (blockAt c m line tag)
      else blockAt c m line tag := by
  obtain ⟨l, hl, htag, _⟩ := h.valid.line?_of_acks hs ((c.writes_iff bus).mp hw).1
  by_cases hline : (c.target bus).line = line
  · subst hline
    have hwl : c.writesLine bus (c.target bus).line = true := by
      simp [Cache.writesLine, hw]
    have hl' : (c.checkEdge bus).line? (c.target bus).line = some (c.overwrite bus l) := by
      rw [Cache.line?_checkEdge, if_pos hwl, hl, Option.map_some]
    rw [blockAt_eq hl', blockAt_eq hl, Cache.overwrite, h.valid.granuleBytes_eq, htag]
    by_cases ht : (c.target bus).tag = tag
    · rw [if_pos ht, if_pos ht, if_pos ⟨rfl, ht.symm⟩]
    · rw [if_neg ht, if_neg ht, if_neg fun ha => ht ha.2.symm, Cache.geometry_checkEdge]
  · have hwl : c.writesLine bus line = false := by
      simp [Cache.writesLine, hline]
    rw [if_neg fun ha => hline ha.1.symm, blockAt, Cache.line?_checkEdge, hwl, if_neg (by decide),
      Cache.geometry_checkEdge, blockAt]

/-- The memory after a cycle that served requests: an acknowledged write is merged in. -/
theorem image_checkEdge (h : Coherent c m) (hs : c.state = .check) (bus : Bus.Request) :
    image (c.checkEdge bus) m =
      if c.writes bus = true then c.geometry.update (image c m) bus.adr bus.sel bus.datW
      else image c m := by
  by_cases hw : c.writes bus = true
  · rw [if_pos hw]
    funext adr
    have hclip : c.geometry.layout.clip adr = c.geometry.layout.clip bus.adr ↔
        c.geometry.layout.split adr = c.target bus := c.geometry.layout.split_inj.symm
    have hoffset := c.geometry.split_offset_lt adr
    simp only [image, Cache.geometry_checkEdge, Geometry.update, hclip]
    generalize c.geometry.layout.split adr = a at hoffset ⊢
    have hlength := h.length_blockAt a.line a.tag
    rw [h.blockAt_checkEdge hs hw]
    by_cases hblock : a.line = (c.target bus).line ∧ a.tag = (c.target bus).tag
    · rw [if_pos hblock]
      by_cases ho : a.offset = (c.target bus).offset
      · have ha : a = c.target bus := by
          obtain ⟨offset, line, tag⟩ := a
          obtain ⟨rfl, rfl⟩ := hblock
          subst ho
          rfl
        rw [if_pos ha, Cache.writeMask, ← ho, c.geometry.word_merge_write hoffset hlength]
      · rw [if_neg fun ha => ho (congrArg Address.offset ha), Cache.writeMask,
          c.geometry.word_merge_write_of_ne ho hoffset hlength]
    · rw [if_neg hblock, if_neg fun ha => hblock ⟨congrArg Address.line ha, congrArg Address.tag ha⟩]
  · rw [if_neg hw]
    refine image_congr rfl fun line tag _ _ => ?_
    have hwl : c.writesLine bus line = false := by
      simp [Cache.writesLine, hw]
    rw [blockAt, Cache.line?_checkEdge, hwl, if_neg (by decide), Cache.geometry_checkEdge, blockAt]

/-! ## A cycle that waits on the store -/

section Stalled

variable [LatencyModel L] {p : Progress}

/-- The blocks after a cycle of an eviction: when the beat crosses, the victim is among them. -/
theorem readBlock_clock_evict (h : Coherent c m) (hs : c.state = .evict p) {line tag : Nat}
    (hline : line < c.geometry.lines) (htag : tag < 2 ^ c.geometry.layout.tagBits) :
    (m.clock (m.exchange c)).readBlock (c.geometry.layout.blockAddr line tag) =
      if (m.exchange c).write.isSome = true ∧ c.missed.line = line ∧ c.tags.out.tag = tag then c.data.out
      else m.readBlock (c.geometry.layout.blockAddr line tag) := by
  obtain ⟨_, ⟨hnone, hsame⟩ | ⟨hsome, hsame⟩⟩ := MemoryStore.clock_evict h.serves hs
  · rw [hsame.readBlock_eq, hnone, if_neg (by simp)]
  · obtain ⟨hawaits, hstale, _⟩ := h.valid.evict_settled hs
    have hout := h.valid.tag_lt (h.valid.line?_of_awaits hawaits hstale)
    have hwrite := h.fits.readBlock_writeBlock (c.geometry.split_line_lt c.sampled.adr) hout hline htag
      h.valid.length_out
    rw [hsame.readBlock_eq, hsome]
    simp only [Option.isSome_some, true_and]
    exact hwrite

/-- The line that the write beat carries is in the store from then on. -/
theorem backed_clock_evict (h : Coherent c m) (hs : c.state = .evict p) {i : Nat} {l : Cache.Line}
    (hl : c.line? i = some l)
    (hdrop : l.dirty = false ∨ ((c.evictEdge p (m.exchange c)).flushed = true ∧ c.missed.line = i)) :
    (m.clock (m.exchange c)).readBlock (c.geometry.layout.blockAddr i l.tag) = l.data := by
  obtain ⟨hawaits, hstale, _⟩ := h.valid.evict_settled hs
  have hvictim := h.valid.line?_of_awaits hawaits hstale
  rw [h.readBlock_clock_evict hs (Cache.line?_eq_some.mp hl).1 (h.valid.tag_lt hl)]
  by_cases hw : (m.exchange c).write.isSome = true ∧ c.missed.line = i ∧ c.tags.out.tag = l.tag
  · rw [if_pos hw]
    rw [hw.2.1, hl] at hvictim
    rw [Option.some.inj hvictim]
    rfl
  · rw [if_neg hw]
    rcases hdrop with hclean | ⟨hflushed, hline⟩
    · exact h.backed hl (.inl hclean)
    · -- the beat of this cycle would have been the victim's, so the beat crossed before
      rw [hline, hl] at hvictim
      have htag : c.tags.out.tag = l.tag := congrArg Cache.Line.tag (Option.some.inj hvictim).symm
      have hnone : (m.exchange c).write.isSome = false := by
        rw [← Bool.not_eq_true]
        exact fun hsome => hw ⟨hsome, hline, htag⟩
      have hbefore : c.flushed = true := by
        rw [Cache.flushed, hs]
        rw [Cache.flushed, Cache.state_evictEdge] at hflushed
        cases hdone : p.isDone with
        | true => rw [Cache.eq_of_isDone hdone]
        | false => simpa [hdone, Cache.evictProgress, hnone] using hflushed
      exact h.backed hl (.inr ⟨hbefore, hline⟩)

/-- A cycle of an eviction keeps the cache and the store coherent. -/
theorem evictEdge (h : Coherent c m) (hs : c.state = .evict p) :
    Coherent (c.evictEdge p (m.exchange c)) (m.clock (m.exchange c)) where
  valid := h.valid.evictEdge hs _
  fits := by
    obtain ⟨_, ⟨_, hsame⟩ | ⟨_, hsame⟩⟩ := MemoryStore.clock_evict h.serves hs
    · exact hsame.fits h.fits
    · exact hsame.fits (h.fits.writeBlock ..)
  serves := (MemoryStore.clock_evict h.serves hs).1
  backed hl hdrop := h.backed_clock_evict hs (c.line?_evictEdge p _ _ ▸ hl) hdrop

/-- No word changes while a line is evicted. -/
theorem image_evictEdge (h : Coherent c m) (hs : c.state = .evict p) :
    image (c.evictEdge p (m.exchange c)) (m.clock (m.exchange c)) = image c m := by
  obtain ⟨hawaits, hstale, _⟩ := h.valid.evict_settled hs
  have hvictim := h.valid.line?_of_awaits hawaits hstale
  refine image_congr rfl fun line tag hline htag => ?_
  obtain ⟨l, hl⟩ := h.valid.exists_line hline
  rw [blockAt_eq hl, blockAt_eq ((c.line?_evictEdge p _ line).trans hl)]
  by_cases ht : l.tag = tag
  · rw [if_pos ht, if_pos ht]
  · rw [if_neg ht, if_neg ht, Cache.geometry_evictEdge, h.readBlock_clock_evict hs hline htag, if_neg]
    rintro ⟨_, hmissed, hout⟩
    rw [hmissed, hl] at hvictim
    exact ht ((congrArg Cache.Line.tag (Option.some.inj hvictim)).trans hout)

/-- The lines after a cycle of a refill: when the beat crosses, the requested block is in its line. -/
theorem line?_refillEdge (h : Coherent c m) (hs : c.state = .refill p) {i : Nat}
    (hi : i < c.geometry.lines) :
    (c.refillEdge p (m.exchange c)).line? i =
      if (m.exchange c).read.isSome = true ∧ c.missed.line = i then
        some ⟨c.missed.tag, false, m.readBlock (c.geometry.layout.blockAddr c.missed.line c.missed.tag)⟩
      else c.line? i := by
  obtain ⟨_, _, hread⟩ := MemoryStore.clock_refill h.serves hs
  rw [Cache.line?_refillEdge]
  rcases hread with hnone | ⟨_, hsome⟩
  · rw [hnone, if_neg (by simp)]
  · rw [hsome]
    dsimp only
    rw [h.valid.line?_install _ i hi, Block.fit_eq_self (h.fits.length_readBlock _)]
    simp only [Option.isSome_some, true_and]
    rfl

/-- A cycle of a refill keeps the cache and the store coherent. -/
theorem refillEdge (h : Coherent c m) (hs : c.state = .refill p) :
    Coherent (c.refillEdge p (m.exchange c)) (m.clock (m.exchange c)) where
  valid := h.valid.refillEdge hs _
  fits := by
    rw [Cache.geometry_refillEdge]
    exact (MemoryStore.clock_refill h.serves hs).2.1.fits h.fits
  serves := (MemoryStore.clock_refill h.serves hs).1
  backed {i l} hl hdrop := by
    have hi := (Cache.line?_eq_some.mp hl).1
    rw [Cache.geometry_refillEdge] at hi ⊢
    rw [h.line?_refillEdge hs hi] at hl
    rw [(MemoryStore.clock_refill h.serves hs).2.1.readBlock_eq]
    split at hl
    · next hnew =>
      rw [← Option.some.inj hl, ← hnew.2]
    · rw [Cache.missed_refillEdge] at hdrop
      exact h.backed hl (hdrop.imp_right fun hd => ⟨Cache.flushed_of_refill hs, hd.2⟩)

/-- The block that a refill brings in was in the store, and the one that it replaces still is. -/
theorem image_refillEdge (h : Coherent c m) (hs : c.state = .refill p) :
    image (c.refillEdge p (m.exchange c)) (m.clock (m.exchange c)) = image c m := by
  obtain ⟨_, hsame, hread⟩ := MemoryStore.clock_refill h.serves hs
  obtain ⟨hawaits, hstale⟩ := h.valid.refill_settled hs
  refine image_congr (c.geometry_refillEdge p _) fun line tag hline _ => ?_
  obtain ⟨l, hl⟩ := h.valid.exists_line hline
  by_cases hnew : (m.exchange c).read.isSome = true ∧ c.missed.line = line
  · obtain ⟨hsome, rfl⟩ := hnew
    have hbeat : p.beat = false := by
      rcases hread with hnone | ⟨hbeat, _⟩
      · rw [hnone] at hsome
        cases hsome
      · exact hbeat
    have hne : l.tag ≠ c.missed.tag := by
      have hvictim := h.valid.line?_of_awaits hawaits (hstale.trans hbeat)
      rw [hl] at hvictim
      rw [Option.some.inj hvictim]
      exact hawaits.tag_ne
    have hbacked := h.backed hl (.inr ⟨Cache.flushed_of_refill hs, rfl⟩)
    have hl' := (h.line?_refillEdge hs hline).trans (if_pos ⟨hsome, rfl⟩)
    rw [blockAt_eq hl', blockAt_eq hl, hsame.readBlock_eq, Cache.geometry_refillEdge]
    dsimp only
    by_cases ht : l.tag = tag
    · rw [if_pos ht, if_neg fun hm => hne (ht.trans hm.symm), ← ht, hbacked]
    · rw [if_neg ht]
      split
      · next hm => rw [hm]
      · rfl
  · have hl' := ((h.line?_refillEdge hs hline).trans (if_neg hnew)).trans hl
    rw [blockAt_eq hl', blockAt_eq hl, hsame.readBlock_eq, Cache.geometry_refillEdge]

end Stalled

/-! ## Any cycle -/

/-- An acknowledged read returns the word that the cache and its store hold. -/
theorem datR_eq (h : Coherent c m) {bus : Bus.Request} (hack : (c.busResponse bus).ack = true)
    (hwe : bus.we = false) : (c.busResponse bus).datR = image c m bus.adr := by
  obtain ⟨hs, hacks⟩ := (c.ack_busResponse bus).mp hack
  obtain ⟨l, hl, htag, hloaded⟩ := h.valid.line?_of_acks hs hacks
  have hdata : c.data.out = l.data := congrArg Cache.Line.data (hloaded hwe).symm
  have hblock : blockAt c m (c.target bus).line (c.target bus).tag = l.data := by
    rw [blockAt_eq hl, if_pos htag]
  rw [Cache.busResponse, hs]
  dsimp only
  rw [if_pos hacks, hdata, ← hblock]
  rfl

/-- **One cycle**, with any request and any latencies: the cache and its store go on to agree, and the memory
that they make up changes by the acknowledged write, if there is one. -/
theorem next [LatencyModel L] (h : Coherent c m) (bus : Bus.Request) :
    let c' := c.next bus m.respond
    let m' := m.clock (m.exchange c)
    Coherent c' m' ∧ image c' m' =
      if (c.busResponse bus).ack = true ∧ bus.we = true then
        c.geometry.update (image c m) bus.adr bus.sel bus.datW
      else image c m := by
  simp only [Cache.ack_busResponse]
  cases hs : c.state with
  | check =>
      rw [MemoryStore.clock_check h.serves hs, Cache.next_check hs, h.image_checkEdge hs]
      simp only [Cache.writes_iff, true_and]
      exact ⟨h.checkEdge hs bus, trivial⟩
  | evict p =>
      rw [Cache.next_evict hs, if_neg (by simp)]
      exact ⟨h.evictEdge hs, h.image_evictEdge hs⟩
  | refill p =>
      rw [Cache.next_refill hs, if_neg (by simp)]
      exact ⟨h.refillEdge hs, h.image_refillEdge hs⟩

end Coherent

end WriteBack
