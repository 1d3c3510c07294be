import WriteBack.Geometry
import WriteBack.LineMemory.Data
import WriteBack.Shadow

/-!
# WriteBack.Proofs.Word

The bits of the words in a block. A masked write offers one bus word to every word of a line and enables
the granules of a single one; seen through `Block.word` it is a merge of that word, granule by granule, and
no other word changes:

* `word_merge_write` — the word that a write selects becomes `mergeGranules` of the old and the new one;
* `word_merge_write_of_ne` — the other words of the line stay;
* `mergeBits_eq_mergeGranules` — the bit masks of the flat memory describe the same merge.
-/

namespace WriteBack

/-! ## Merging granule by granule -/

/-- Takes `count` granules of `width` bits each, from `new` where the select bit is set and from `old`
elsewhere. -/
def mergeGranules (width : Nat) : (count sel old new : Nat) → Nat
  | 0, _, _, _ => 0
  | n + 1, sel, old, new =>
    (if sel.testBit 0 then new else old) % 2 ^ width
      + 2 ^ width * mergeGranules width n (sel / 2) (old / 2 ^ width) (new / 2 ^ width)

/-- A merged word takes every bit from one of the two words; its select bit says from which. -/
theorem testBit_mergeGranules {width : Nat} (hw : 0 < width) (count sel old new i : Nat) :
    (mergeGranules width count sel old new).testBit i =
      (decide (i < count * width) &&
        if sel.testBit (i / width) then new.testBit i else old.testBit i) := by
  induction count generalizing sel old new i with
  | zero => simp [mergeGranules]
  | succ n ih =>
      have hlow : (if sel.testBit 0 then new else old) % 2 ^ width < 2 ^ width :=
        Nat.mod_lt _ (Nat.two_pow_pos _)
      rw [mergeGranules, Nat.add_comm, Nat.testBit_two_pow_mul_add _ hlow]
      by_cases hi : i < width
      · have hdiv : i / width = 0 := Nat.div_eq_of_lt hi
        have hcount : i < (n + 1) * width := by rw [Nat.succ_mul]; omega
        rw [if_pos hi, Nat.testBit_mod_two_pow, hdiv, decide_eq_true hi, decide_eq_true hcount]
        split <;> rfl
      · have hsub : i - width + width = i := by omega
        have hdiv : i / width = (i - width) / width + 1 := by
          rw [← Nat.add_div_right _ hw, hsub]
        have hcount : (i - width < n * width) = (i < (n + 1) * width) := by
          rw [Nat.succ_mul]; exact propext (by omega)
        rw [if_neg hi, ih, Nat.testBit_div_two_pow, Nat.testBit_div_two_pow, hsub, hdiv,
          Nat.testBit_succ]
        simp only [hcount]

example : mergeGranules 8 2 1 0x1234 0xabcd = 0x12cd := by decide

/-! ## Bits of a block -/

namespace Block

/-- The bits of a number are those of its bytes. -/
theorem testBit_toNat (bytes : Block) (i : Nat) :
    (toNat bytes).testBit i = (bytes.getD (i / 8) 0).toNat.testBit (i % 8) := by
  induction bytes generalizing i with
  | nil => simp [toNat]
  | cons b rest ih =>
      have hb : b.toNat < 2 ^ 8 := b.toNat_lt
      have hcons : toNat (b :: rest) = 2 ^ 8 * toNat rest + b.toNat := by
        rw [toNat, List.foldr_cons, ← toNat, Nat.add_comm, show (2 : Nat) ^ 8 = 256 by decide]
      rw [hcons, Nat.testBit_two_pow_mul_add _ hb]
      by_cases hi : i < 8
      · rw [if_pos hi, Nat.div_eq_of_lt hi, Nat.mod_eq_of_lt hi, List.getD_cons_zero]
      · have hdiv : i / 8 = (i - 8) / 8 + 1 := by omega
        have hmod : i % 8 = (i - 8) % 8 := by omega
        rw [if_neg hi, ih, hdiv, hmod, List.getD_cons_succ]

theorem getD_slice (start n : Nat) (block : Block) (i : Nat) :
    (slice start n block).getD i 0 = if i < n then block.getD (start + i) 0 else 0 := by
  simp only [slice, List.getD_eq_getElem?_getD, List.getElem?_take, List.getElem?_drop]
  split <;> rfl

/-- The bits of a word are those of the bytes at its place in the block. -/
theorem testBit_word (size index : Nat) (block : Block) (i : Nat) :
    (word size index block).testBit i =
      (decide (i < 8 * size) && (block.getD (index * size + i / 8) 0).toNat.testBit (i % 8)) := by
  rw [word, testBit_toNat, getD_slice]
  by_cases hi : i < 8 * size
  · rw [if_pos (by omega), decide_eq_true hi, Bool.true_and]
  · rw [if_neg (by omega), decide_eq_false hi]
    simp

@[simp] theorem word_zeros (size index n : Nat) : word size index (zeros n) = 0 := by
  apply Nat.eq_of_testBit_eq
  intro i
  rw [testBit_word, zeros, List.getD_eq_getElem?_getD, List.getElem?_replicate]
  split <;> simp

theorem getElem?_ofNat (n word i : Nat) :
    (ofNat n word)[i]? = if i < n then some (UInt8.ofNat (word / 256 ^ i)) else none := by
  induction n generalizing word i with
  | zero => simp [ofNat]
  | succ n ih =>
      cases i with
      | zero => simp [ofNat]
      | succ i =>
          rw [ofNat, List.getElem?_cons_succ, ih, Nat.div_div_eq_div_mul, ← Nat.pow_succ']
          simp only [Nat.add_lt_add_iff_right]

/-- A filled block repeats the bytes of its word. -/
theorem getElem?_fill (size count word i : Nat) :
    (fill size count word)[i]? = if i < count * size then (ofNat size word)[i % size]? else none := by
  induction count generalizing i with
  | zero => simp [fill]
  | succ n ih =>
      have hcons : fill size (n + 1) word = ofNat size word ++ fill size n word := by
        simp [fill, List.replicate_succ]
      rw [hcons, List.getElem?_append, length_ofNat, ih, Nat.succ_mul]
      by_cases hi : i < size
      · rw [if_pos hi, if_pos (by omega), Nat.mod_eq_of_lt hi]
      · have hmod : i % size = (i - size) % size := Nat.mod_eq_sub_mod (Nat.not_lt.mp hi)
        rw [if_neg hi, hmod]
        by_cases hj : i - size < n * size
        · rw [if_pos hj, if_pos (by omega)]
        · rw [if_neg hj, if_neg (by omega)]

/-- The byte of a filled block that holds a bit of a word. -/
theorem testBit_getD_fill {size count index : Nat} (h : index < count) (word : Nat) {i : Nat}
    (hi : i < 8 * size) (d : UInt8) :
    ((fill size count word).getD (index * size + i / 8) d).toNat.testBit (i % 8) = word.testBit i := by
  have hk : i / 8 < size := by omega
  have hlt : index * size + i / 8 < count * size := by
    have := Nat.mul_le_mul_right size (Nat.succ_le_of_lt h)
    rw [Nat.succ_mul] at this
    omega
  have hmod : (index * size + i / 8) % size = i / 8 := by
    rw [Nat.mul_comm, Nat.mul_add_mod, Nat.mod_eq_of_lt hk]
  rw [List.getD_eq_getElem?_getD, getElem?_fill, if_pos hlt, hmod, getElem?_ofNat, if_pos hk,
    Option.getD_some, UInt8.toNat_ofNat', Nat.testBit_mod_two_pow]
  rw [show (256 : Nat) = 2 ^ 8 by decide, ← Nat.pow_mul, Nat.testBit_div_two_pow,
    decide_eq_true (Nat.mod_lt _ (by decide)), Bool.true_and, Nat.mod_add_div]

/-- Enabling every granule takes the new block as a whole. -/
theorem merge_lowMask {granule n : Nat} (hg : 0 < granule) (hn : n ≤ 64) {new old : Block}
    (hnew : new.length = n * granule) (hold : old.length = n * granule) :
    merge granule (lowMask n) new old = new := by
  apply List.ext_getElem?
  intro i
  rw [getElem?_merge]
  by_cases hi : i < n * granule
  · have hq : i / granule < n := Nat.div_lt_of_lt_mul (by rw [Nat.mul_comm]; exact hi)
    have hbit : (lowMask n).testBit (i / granule) = true := by
      rw [lowMask_of_le hn, Nat.testBit_two_pow_sub_one, decide_eq_true hq]
    rw [List.getElem?_eq_getElem (hold ▸ hi), List.getElem?_eq_getElem (hnew ▸ hi), Option.map_some,
      if_pos ⟨by rw [hold, Nat.mul_div_cancel _ hg]; exact hq, hbit⟩, List.getD_eq_getElem?_getD,
      List.getElem?_eq_getElem (hnew ▸ hi), Option.getD_some]
  · rw [List.getElem?_eq_none (by omega), List.getElem?_eq_none (by omega), Option.map_none]

end Block

/-! ## A write to one word of a line -/

/-- The write mask of a word enables a granule of the line when the granule lies in that word and is
selected. -/
theorem testBit_select_shiftLeft (sel width offset index : Nat) {granule : Nat}
    (h : granule < width) :
    ((sel % 2 ^ width) <<< (offset * width)).testBit (index * width + granule) =
      (decide (index = offset) && sel.testBit granule) := by
  rw [Nat.testBit_shiftLeft, Nat.testBit_mod_two_pow]
  rcases Nat.lt_trichotomy index offset with hlt | rfl | hgt
  · have hle : (index + 1) * width ≤ offset * width := Nat.mul_le_mul_right _ hlt
    rw [Nat.succ_mul] at hle
    rw [decide_eq_false (show ¬ index * width + granule ≥ offset * width by omega),
      decide_eq_false (show ¬ index = offset by omega), Bool.false_and, Bool.false_and]
  · rw [decide_eq_true (show index * width + granule ≥ index * width by omega), Nat.add_sub_cancel_left,
      decide_eq_true h, decide_eq_true rfl, Bool.true_and, Bool.true_and]
  · have hle : (offset + 1) * width ≤ index * width := Nat.mul_le_mul_right _ hgt
    rw [Nat.succ_mul] at hle
    rw [decide_eq_false (show ¬ index * width + granule - offset * width < width by omega),
      decide_eq_false (show ¬ index = offset by omega), Bool.false_and, Bool.and_false, Bool.false_and]

namespace Geometry

variable (g : Geometry)

/-- A bus word that has bits holds a granule. -/
theorem granularity_le (h : 0 < g.dataWidth) : g.granularity ≤ g.dataWidth := by
  have hsel : 0 < g.selWidth := by
    apply Nat.pos_of_ne_zero
    intro hz
    rw [g.dataWidth_eq_mul, hz, Nat.zero_mul] at h
    exact Nat.lt_irrefl 0 h
  rw [g.dataWidth_eq_mul]
  exact Nat.le_mul_of_pos_left _ hsel

/-- A write of every granule of a line takes the new line as a whole. -/
theorem merge_wholeLine {new old : Block} (hnew : new.length = g.lineBytes) (hold : old.length = g.lineBytes) :
    Block.merge g.granuleBytes (lowMask (g.lineBytes / g.granuleBytes)) new old = new := by
  have hmul : g.lineBytes = g.lineBytes / g.granuleBytes * g.granuleBytes := by
    rw [g.lineBytes_div_granuleBytes, Nat.mul_assoc, g.selWidth_mul_granuleBytes, g.lineBytes_eq]
  exact Block.merge_lowMask g.granuleBytes_pos (Nat.le_trans (Nat.div_le_self ..) g.lineBytes_le)
    (hnew.trans hmul) (hold.trans hmul)

/-- The bits of the words of a line after a write of one of them. -/
theorem testBit_word_merge {offset index : Nat} (hindex : index < g.wordsPerLine) {old : Block}
    (hold : old.length = g.lineBytes) (sel word : Nat) {i : Nat} (hi : i < 8 * g.busBytes) :
    (Block.word g.busBytes index (Block.merge g.granuleBytes
      ((sel % 2 ^ g.selWidth) <<< (offset * g.selWidth))
      (Block.fill g.busBytes g.wordsPerLine word) old)).testBit i =
      if index = offset ∧ sel.testBit (i / g.granularity) then word.testBit i
      else (Block.word g.busBytes index old).testBit i := by
  have hsel := g.selWidth_mul_granuleBytes
  have hgran : i / 8 / g.granuleBytes = i / g.granularity := by
    rw [Nat.div_div_eq_div_mul, ← g.granularity_eq_mul]
  have hk : i / 8 / g.granuleBytes < g.selWidth :=
    Nat.div_lt_of_lt_mul (by rw [Nat.mul_comm, hsel]; omega)
  have hp : index * g.busBytes + i / 8 < old.length := by
    have hle : (index + 1) * g.busBytes ≤ g.wordsPerLine * g.busBytes :=
      Nat.mul_le_mul_right _ hindex
    rw [Nat.succ_mul, ← g.lineBytes_eq] at hle
    omega
  have hq : (index * g.busBytes + i / 8) / g.granuleBytes =
      index * g.selWidth + i / 8 / g.granuleBytes := by
    rw [← hsel, ← Nat.mul_assoc, Nat.mul_comm, Nat.mul_add_div g.granuleBytes_pos]
  have hcount : old.length / g.granuleBytes = g.wordsPerLine * g.selWidth := by
    rw [hold, g.lineBytes_div_granuleBytes]
  have hin : index * g.selWidth + i / 8 / g.granuleBytes < g.wordsPerLine * g.selWidth := by
    have hle : (index + 1) * g.selWidth ≤ g.wordsPerLine * g.selWidth :=
      Nat.mul_le_mul_right _ hindex
    rw [Nat.succ_mul] at hle
    omega
  rw [Block.testBit_word, Block.testBit_word, decide_eq_true hi, Bool.true_and, Bool.true_and]
  simp only [List.getD_eq_getElem?_getD, Block.getElem?_merge, List.getElem?_eq_getElem hp,
    Option.map_some, Option.getD_some]
  rw [hq, hcount, testBit_select_shiftLeft _ _ _ _ hk, hgran]
  by_cases h : index = offset ∧ sel.testBit (i / g.granularity) = true
  · rw [if_pos h, if_pos ⟨hgran ▸ hin, by simp [h]⟩, ← List.getD_eq_getElem?_getD]
    exact Block.testBit_getD_fill hindex word hi _
  · rw [if_neg h, if_neg fun hc => h (by simpa using hc.2)]

/-- **The written word**: a write to a word of a line merges the selected granules into that word. -/
theorem word_merge_write {offset : Nat} (hoffset : offset < g.wordsPerLine) {old : Block}
    (hold : old.length = g.lineBytes) (sel word : Nat) :
    Block.word g.busBytes offset (Block.merge g.granuleBytes
      ((sel % 2 ^ g.selWidth) <<< (offset * g.selWidth))
      (Block.fill g.busBytes g.wordsPerLine word) old) =
      mergeGranules g.granularity g.selWidth sel (Block.word g.busBytes offset old) word := by
  apply Nat.eq_of_testBit_eq
  intro i
  rw [testBit_mergeGranules g.granularity_pos, ← g.dataWidth_eq_mul, g.dataWidth_eq_busBytes]
  by_cases hi : i < 8 * g.busBytes
  · rw [g.testBit_word_merge hoffset hold sel word hi, decide_eq_true hi, Bool.true_and]
    simp only [true_and]
  · rw [Block.testBit_word, decide_eq_false hi, Bool.false_and, Bool.false_and]

/-- **The other words**: a write to a word of a line leaves every other word of the line alone. -/
theorem word_merge_write_of_ne {offset index : Nat} (hne : index ≠ offset)
    (hindex : index < g.wordsPerLine) {old : Block} (hold : old.length = g.lineBytes)
    (sel word : Nat) :
    Block.word g.busBytes index (Block.merge g.granuleBytes
      ((sel % 2 ^ g.selWidth) <<< (offset * g.selWidth))
      (Block.fill g.busBytes g.wordsPerLine word) old) = Block.word g.busBytes index old := by
  apply Nat.eq_of_testBit_eq
  intro i
  by_cases hi : i < 8 * g.busBytes
  · rw [g.testBit_word_merge hindex hold sel word hi, if_neg fun h => hne h.1]
  · rw [Block.testBit_word, Block.testBit_word, decide_eq_false hi, Bool.false_and, Bool.false_and]

end Geometry

/-! ## The flat memory -/

namespace ShadowMemory

/-- The selected bits are those of the selected granules. -/
theorem testBit_selectedBits {width : Nat} (hw : 0 < width) (hle : width ≤ 64) (count sel i : Nat) :
    (selectedBits width count sel).testBit i =
      (decide (i < count * width) && sel.testBit (i / width)) := by
  induction count with
  | zero => simp [selectedBits]
  | succ n ih =>
      have hstep : selectedBits width (n + 1) sel =
          if sel.testBit n then selectedBits width n sel ||| lowMask width <<< (n * width)
          else selectedBits width n sel := by
        simp only [selectedBits, List.range_succ, List.foldl_append, List.foldl_cons, List.foldl_nil]
      have hgranule : (lowMask width <<< (n * width)).testBit i = decide (i / width = n) := by
        have hiff : (i ≥ n * width ∧ i - n * width < width) ↔ i / width = n := by
          rw [Nat.div_eq_iff hw, Nat.mul_comm]
          omega
        rw [Nat.testBit_shiftLeft, lowMask_of_le hle, Nat.testBit_two_pow_sub_one,
          ← Bool.decide_and, decide_eq_decide.mpr hiff]
      have hlt : i < n * width ↔ i / width < n := (Nat.div_lt_iff_lt_mul hw).symm
      have hlt' : i < (n + 1) * width ↔ i / width < n + 1 := (Nat.div_lt_iff_lt_mul hw).symm
      rw [hstep]
      simp only [hlt, hlt'] at ih ⊢
      split
      · next hs =>
        rw [Nat.testBit_or, ih, hgranule]
        rcases Nat.lt_trichotomy (i / width) n with h | h | h
        · simp [h, Nat.lt_succ_of_lt h, Nat.ne_of_lt h]
        · simp [h, hs]
        · simp [Nat.not_lt.mpr (Nat.le_of_lt h), Nat.not_lt.mpr h, Nat.ne_of_gt h]
      · next hs =>
        rw [ih]
        rcases Nat.lt_trichotomy (i / width) n with h | h | h
        · simp [h, Nat.lt_succ_of_lt h]
        · simp [h, hs]
        · simp [Nat.not_lt.mpr (Nat.le_of_lt h), Nat.not_lt.mpr h]

/-- The flat memory merges words granule by granule. -/
theorem mergeBits_eq_mergeGranules (m : ShadowMemory) (old new sel : Nat) :
    mergeBits (m.keep sel) old new % 2 ^ m.geometry.dataWidth =
      mergeGranules m.geometry.granularity m.geometry.selWidth sel old new := by
  have hpos := m.geometry.granularity_pos
  apply Nat.eq_of_testBit_eq
  intro i
  rw [testBit_mergeGranules hpos, ← m.geometry.dataWidth_eq_mul, Nat.testBit_mod_two_pow]
  by_cases hi : i < m.geometry.dataWidth
  · have hle : m.geometry.granularity ≤ 64 :=
      Nat.le_trans (m.geometry.granularity_le (by omega)) m.geometry.dataWidth_le
    rw [decide_eq_true hi, Bool.true_and, Bool.true_and, mergeBits, keep]
    simp only [Nat.testBit_or, Nat.testBit_and, Nat.testBit_xor, testBit_selectedBits hpos hle,
      ← m.geometry.dataWidth_eq_mul, decide_eq_true hi, Bool.true_and]
    cases sel.testBit (i / m.geometry.granularity) <;> simp
  · rw [decide_eq_false hi, Bool.false_and, Bool.false_and]

end ShadowMemory

end WriteBack
