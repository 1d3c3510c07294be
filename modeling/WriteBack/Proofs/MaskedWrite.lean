import WriteBack.Proofs.FlatMemory
import WriteBack.Proofs.Protocol

/-!
# WriteBack.Proofs.MaskedWrite

The memory of line contents, seen word by word through its read register. A write to one word goes to the memory as
a line full of copies of that word under the mask of its granules (`Geometry.wordWrite`); what is read afterwards is
what the flat memory makes of the word that was there, and every other word is the one from before
(`masked_writes_merge`). A write of a whole line is read back word by word, low byte first.
-/

namespace WriteBack

/-! ## The memory of a geometry -/

namespace DataMemory

variable {m : DataMemory} {g : Geometry}

/-- A memory for the lines of a geometry. -/
structure Shaped (m : DataMemory) (g : Geometry) : Prop where
  size_eq : m.size = g.lines
  granuleBytes_eq : m.granuleBytes = g.granuleBytes
  length_out : m.out.length = g.lineBytes
  length_cell : ∀ {line block}, m.peek? line = some block → block.length = g.lineBytes

/-- Every line below the number of lines is there. -/
theorem Shaped.exists_cell (h : m.Shaped g) {line : Nat} (hline : line < g.lines) :
    ∃ old, m.peek? line = some old ∧ old.length = g.lineBytes := by
  have hlt : line < m.cells.size := Nat.lt_of_lt_of_eq hline h.size_eq.symm
  exact ⟨_, Array.getElem?_eq_getElem hlt, h.length_cell (Array.getElem?_eq_getElem hlt)⟩

/-- The mask of a whole line covers each of its granules. -/
theorem Shaped.merge_fullMask (h : m.Shaped g) {new old : Block} (hnew : new.length = g.lineBytes)
    (hold : old.length = g.lineBytes) : Block.merge m.granuleBytes m.fullMask new old = new := by
  rw [fullMask, h.length_out, h.granuleBytes_eq, g.merge_wholeLine hnew hold]

/-- The word at `offset` of a line, once the read register has taken the line. -/
def wordAt (m : DataMemory) (g : Geometry) (line offset : Nat) : Nat :=
  Block.word g.busBytes offset (m.clock (some line) none).out

theorem wordAt_of_peek? {line : Nat} {block : Block} (h : m.peek? line = some block) (g : Geometry)
    (offset : Nat) : m.wordAt g line offset = Block.word g.busBytes offset block := by
  show Block.word _ _ (m.toLineMemory.clock (some line) none).out = _
  rw [LineMemory.out_clock_some, h, Option.getD_some]

/-- A write of whole lines is not refused, and it changes its line alone. -/
theorem Shaped.clock? (h : m.Shaped g) {w : DataWrite} {old : Block} (hold : m.peek? w.line = some old)
    (hdata : w.data.length = g.lineBytes) :
    ∃ m', m.clock? none (some w) = some m' ∧
      m'.peek? w.line = some (Block.merge m.granuleBytes w.mask w.data old) ∧
      ∀ line ≠ w.line, m'.peek? line = m.peek? line := by
  have hlt : w.line < m.size := by
    obtain ⟨hlt, _⟩ := Array.getElem?_eq_some_iff.mp hold
    exact hlt
  have haccepts : m.Accepts w := by
    refine ⟨h.granuleBytes_eq ▸ Nat.ne_of_gt g.granuleBytes_pos, fun block hblock i hi _ => ?_⟩
    rw [hdata, ← h.length_cell hblock]
    exact Nat.le_trans (Nat.mul_le_mul_right _ hi) (Nat.div_mul_le_self ..)
  have hrange : m.InRange none (some (lineChange m.granuleBytes w)) := ⟨nofun, fun _ hw => by cases hw; exact hlt⟩
  refine ⟨m.clock none (some w), if_pos ⟨hrange, fun _ hw => by cases hw; exact haccepts⟩, ?_, fun line hne => ?_⟩
  · exact (LineMemory.peek?_clock_some ..).trans (by rw [if_pos rfl]; exact congrArg _ hold)
  · exact (LineMemory.peek?_clock_some ..).trans (if_neg hne.symm)

/-- A memory of equal lines. -/
theorem shaped_replicate (g : Geometry) {block : Block} (h : block.length = g.lineBytes) :
    DataMemory.Shaped { toLineMemory := .replicate g.lines block, granuleBytes := g.granuleBytes } g where
  size_eq := LineMemory.size_replicate ..
  granuleBytes_eq := rfl
  length_out := h
  length_cell hpeek := by
    obtain ⟨hlt, heq⟩ := Array.getElem?_eq_some_iff.mp hpeek
    rw [← heq]
    exact (congrArg List.length (Array.getElem_replicate ..)).trans h

end DataMemory

/-! ## Words and bytes -/

namespace Block

theorem word_lt (size index : Nat) (block : Block) : word size index block < 256 ^ size := by
  have hlen : (slice (index * size) size block).length ≤ size := by
    rw [slice, List.length_take]
    exact Nat.min_le_left ..
  exact Nat.lt_of_lt_of_le (toNat_lt _) (Nat.pow_le_pow_right (by decide) hlen)

/-- The bytes of a word, low byte first, are those at its place in the block. -/
theorem word_div_mod {size k : Nat} (hk : k < size) (index : Nat) (block : Block) :
    word size index block / 256 ^ k % 256 = (block.getD (index * size + k) 0).toNat := by
  apply Nat.eq_of_testBit_eq
  intro i
  rw [show (256 : Nat) = 2 ^ 8 by decide, ← Nat.pow_mul, Nat.testBit_mod_two_pow, Nat.testBit_div_two_pow,
    testBit_word]
  by_cases hi : i < 8
  · have hdiv : (i + 8 * k) / 8 = k := by omega
    have hmod : (i + 8 * k) % 8 = i := by omega
    rw [decide_eq_true hi, decide_eq_true (show i + 8 * k < 8 * size by omega), hdiv, hmod, Bool.true_and,
      Bool.true_and]
  · have hbyte : (block.getD (index * size + k) 0).toNat < 2 ^ i :=
      Nat.lt_of_lt_of_le (UInt8.toNat_lt _) (Nat.pow_le_pow_right (by decide) (Nat.not_lt.mp hi))
    rw [decide_eq_false hi, Bool.false_and, Nat.testBit_lt_two_pow hbyte]

end Block

/-! ## Writes under a mask -/

namespace Geometry

variable (g : Geometry)

/-- Masking with the full select keeps the select bits of a word. -/
theorem and_fullSel (sel : Nat) : sel &&& g.fullSel = sel % 2 ^ g.selWidth := by
  rw [fullSel, and_lowMask, lowBits_of_le (Nat.le_trans g.selWidth_le (by decide))]

/-- The write of the selected granules of one word of a line: the line is full of copies of the word, and the mask
has the select bits at the place of the word. -/
def wordWrite (line offset datW sel : Nat) : DataWrite where
  line
  data := Block.fill g.busBytes g.wordsPerLine datW
  mask := (sel &&& g.fullSel) <<< (offset * g.selWidth)

theorem length_data_wordWrite (line offset datW sel : Nat) :
    (g.wordWrite line offset datW sel).data.length = g.lineBytes :=
  (Block.length_fill ..).trans g.lineBytes_eq.symm

end Geometry

/-- What an acknowledged write hands to the memory. -/
theorem Cache.dataWrite_of_writes {c : Cache} {bus : Bus.Request} (h : c.writes bus = true) :
    c.dataWrite bus =
      some (c.geometry.wordWrite (c.target bus).line (c.target bus).offset bus.datW bus.sel) := by
  rw [dataWrite, if_pos h, writeMask, ← c.geometry.and_fullSel]
  rfl

/-- The word at an address of the flat memory after a write to it. -/
theorem ShadowMemory.read_write_self (shadow : ShadowMemory) (adr datW sel : Nat) :
    (shadow.write adr datW sel).read adr =
      mergeGranules shadow.geometry.granularity shadow.geometry.selWidth sel (shadow.read adr) datW := by
  rw [read_write, Geometry.update, if_pos rfl]

/-- **Masked writes merge**, for every geometry, every memory of its lines and every line.

* A write to the word at `offset` makes of it what the flat memory makes of the word that was there, and changes
  no other word and no other line. This is the write that the cache makes on an acknowledged beat.
* A write of a whole line is read back as its words, the lowest byte first, and changes no other line. -/
theorem masked_writes_merge (g : Geometry) {m : DataMemory} (hm : m.Shaped g) {line : Nat}
    (hline : line < g.lines) :
    (∀ offset < g.wordsPerLine, ∀ datW sel : Nat, ∃ m',
      m.clock? none (some (g.wordWrite line offset datW sel)) = some m' ∧
        (∀ (shadow : ShadowMemory) (adr : Nat), shadow.geometry = g →
          shadow.read adr = m.wordAt g line offset →
          m'.wordAt g line offset = (shadow.write adr datW sel).read adr) ∧
        (∀ other < g.wordsPerLine, other ≠ offset → m'.wordAt g line other = m.wordAt g line other) ∧
        ∀ other ≠ line, m'.peek? other = m.peek? other) ∧
      (∀ block : Block, block.length = g.lineBytes → ∃ m',
        m.clock? none (some ⟨line, block, m.fullMask⟩) = some m' ∧
          (∀ offset < g.wordsPerLine, m'.wordAt g line offset < 256 ^ g.busBytes ∧ ∀ k < g.busBytes,
            m'.wordAt g line offset / 256 ^ k % 256 = (block.getD (offset * g.busBytes + k) 0).toNat) ∧
          ∀ other ≠ line, m'.peek? other = m.peek? other) ∧
      ∀ (c : Cache) (bus : Bus.Request), c.geometry = g → c.writes bus = true →
        c.dataWrite bus = some (g.wordWrite (c.target bus).line (c.target bus).offset bus.datW bus.sel) := by
  obtain ⟨old, hpeek, hold⟩ := hm.exists_cell hline
  refine ⟨fun offset hoffset datW sel => ?_, fun block hblock => ?_, fun c bus hg hw => ?_⟩
  · obtain ⟨m', hclock, hwritten, hothers⟩ := hm.clock? (w := g.wordWrite line offset datW sel) hpeek
      (g.length_data_wordWrite ..)
    rw [hm.granuleBytes_eq, Geometry.wordWrite, g.and_fullSel] at hwritten
    refine ⟨m', hclock, ?_, fun other hother hne => ?_, hothers⟩
    · rintro shadow adr rfl hword
      rw [DataMemory.wordAt_of_peek? hpeek] at hword
      rw [DataMemory.wordAt_of_peek? hwritten, shadow.read_write_self, hword,
        shadow.geometry.word_merge_write hoffset hold]
    · rw [DataMemory.wordAt_of_peek? hwritten, DataMemory.wordAt_of_peek? hpeek,
        g.word_merge_write_of_ne hne hother hold]
  · obtain ⟨m', hclock, hwritten, hothers⟩ := hm.clock? (w := ⟨line, block, m.fullMask⟩) hpeek hblock
    rw [hm.merge_fullMask hblock hold] at hwritten
    refine ⟨m', hclock, fun offset _ => ?_, hothers⟩
    rw [DataMemory.wordAt_of_peek? hwritten]
    exact ⟨Block.word_lt .., fun k hk => Block.word_div_mod hk ..⟩
  · subst hg
    exact Cache.dataWrite_of_writes hw

/-- The high byte of the second word of a line is written, in a line and in a flat memory with the same word. -/
theorem masked_writes_merge_high_byte :
    ∃ m', DataMemory.clock? ⟨.replicate 1 [1, 2, 3, 4], 1⟩ none
        (some (Simulator.tiny.wordWrite 0 1 0xabcd 2)) = some m' ∧
      m'.wordAt Simulator.tiny 0 1 = 0xab03 ∧ m'.wordAt Simulator.tiny 0 0 = 0x0201 := by
  have hshaped : DataMemory.Shaped ⟨.replicate 1 [1, 2, 3, 4], 1⟩ Simulator.tiny :=
    DataMemory.shaped_replicate Simulator.tiny rfl
  obtain ⟨hwrites, _, _⟩ := masked_writes_merge Simulator.tiny hshaped (show 0 < 1 by decide)
  obtain ⟨m', hclock, hword, hothers, _⟩ := hwrites 1 (by decide) 0xabcd 2
  have hshadow : (ShadowMemory.write { geometry := Simulator.tiny } 5 0x0403 3).read 5 = 0x0403 := by
    rw [ShadowMemory.read_write_self, ShadowMemory.read_empty]
    decide
  refine ⟨m', hclock, ?_, (hothers 0 (by decide) (by decide)).trans (by decide)⟩
  rw [hword _ 5 rfl (hshadow.trans (by decide)), ShadowMemory.read_write_self, hshadow]
  decide

end WriteBack
