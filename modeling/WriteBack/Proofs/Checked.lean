import WriteBack.Proofs.MaskedWrite

/-!
# WriteBack.Proofs.Checked

Operations on 64-bit words, on blocks and on memories that refuse what is out of range: a sum that does not fit a
word, a shift by 64 bits or more, a division by zero, a range of bytes beyond the end of a block, a copy between
blocks of different sizes, an index beyond the last line. The addresses and the masked writes of the cache are
spelled out in them as a machine computes them, with shifts and masks and granule by granule; each such computation
has a lemma that says when it is not refused, and that its result is then the one that the rest of the development
is about.
-/

namespace WriteBack

/-! ## Words -/

namespace Word

/-- A word shifted to the left, without the bits that leave it. -/
def shiftLeft? (n amount : Nat) : Option Nat := if amount < 64 then some ((n <<< amount) % 2 ^ 64) else none

/-- A word shifted to the right. -/
def shiftRight? (n amount : Nat) : Option Nat := if amount < 64 then some (n >>> amount) else none

/-- A word shifted to the left by any amount; from 64 on nothing is left of it. -/
def shiftLeftOrZero (n amount : Nat) : Nat := (shiftLeft? n amount).getD 0

/-- A word shifted to the right by any amount; from 64 on nothing is left of it. -/
def shiftRightOrZero (n amount : Nat) : Nat := (shiftRight? n amount).getD 0

/-- The mask of the low `bits` bits, by a shift where it can be done by one. -/
def lowMask? (bits : Nat) : Option Nat :=
  if 64 ≤ bits then some (2 ^ 64 - 1) else (shiftLeft? 1 bits).map (· - 1)

/-- A sum. -/
def add? (m n : Nat) : Option Nat := if m + n < 2 ^ 64 then some (m + n) else none

/-- A quotient. -/
def divide? (n d : Nat) : Option Nat := if d = 0 then none else some (n / d)

/-- A shift to the left that stays within the word is a plain one. -/
theorem shiftLeft?_of_lt {n amount : Nat} (h : amount < 64) (hn : n <<< amount < 2 ^ 64) :
    shiftLeft? n amount = some (n <<< amount) := by
  rw [shiftLeft?, if_pos h, Nat.mod_eq_of_lt hn]

/-- A single bit is there below 64. -/
theorem shiftLeft?_one {amount : Nat} (h : amount < 64) : shiftLeft? 1 amount = some (2 ^ amount) := by
  have hlt : 1 <<< amount < 2 ^ 64 := by
    rw [Nat.one_shiftLeft]
    exact Nat.pow_lt_pow_right (by decide) h
  rw [shiftLeft?_of_lt h hlt, Nat.one_shiftLeft]

/-- A shift to the right is a division. -/
theorem shiftRight?_of_lt {amount : Nat} (n : Nat) (h : amount < 64) :
    shiftRight? n amount = some (n / 2 ^ amount) := by
  rw [shiftRight?, if_pos h, Nat.shiftRight_eq_div_pow]

/-- A shift to the right by any amount is a division: a word has no bits from 64 on. -/
theorem shiftRightOrZero_eq {n : Nat} (h : n < 2 ^ 64) (amount : Nat) :
    shiftRightOrZero n amount = n / 2 ^ amount := by
  by_cases hlt : amount < 64
  · rw [shiftRightOrZero, shiftRight?_of_lt n hlt, Option.getD_some]
  · have hpow : 2 ^ 64 ≤ 2 ^ amount := Nat.pow_le_pow_right (by decide) (Nat.not_lt.mp hlt)
    rw [shiftRightOrZero, shiftRight?, if_neg hlt, Nat.div_eq_of_lt (Nat.lt_of_lt_of_le h hpow), Option.getD_none]

/-- The bits of a word after a shift to the left. -/
theorem testBit_shiftLeftOrZero (n amount i : Nat) :
    (shiftLeftOrZero n amount).testBit i = (decide (i < 64) && (decide (amount ≤ i) && n.testBit (i - amount))) := by
  by_cases hlt : amount < 64
  · rw [shiftLeftOrZero, shiftLeft?, if_pos hlt, Option.getD_some, Nat.testBit_mod_two_pow, Nat.testBit_shiftLeft]
  · rw [shiftLeftOrZero, shiftLeft?, if_neg hlt, Option.getD_none, Nat.zero_testBit]
    by_cases hi : i < 64
    · rw [decide_eq_false (show ¬ amount ≤ i by omega), Bool.false_and, Bool.and_false]
    · rw [decide_eq_false hi, Bool.false_and]

/-- A mask is always there: a shift that makes one is below 64. -/
theorem lowMask?_eq (bits : Nat) : lowMask? bits = some (lowMask bits) := by
  by_cases h : 64 ≤ bits
  · rw [lowMask?, if_pos h, lowMask, Nat.min_eq_right h]
  · rw [lowMask?, if_neg h, shiftLeft?_one (Nat.not_le.mp h), Option.map_some, lowMask_of_le (Nat.le_of_not_le h)]

/-- A sum of three is refused when it does not fit a word as a whole, by one addition or the other. -/
theorem add?_bind_add? (k m n : Nat) :
    (add? k m).bind (add? · n) = if k + m + n < 2 ^ 64 then some (k + m + n) else none := by
  by_cases h : k + m < 2 ^ 64
  · rw [add?, if_pos h]
    rfl
  · rw [add?, if_neg h, if_neg (show ¬ k + m + n < 2 ^ 64 by omega)]
    rfl

/-- A quotient by a positive number is there. -/
theorem divide?_of_pos {d : Nat} (n : Nat) (h : 0 < d) : divide? n d = some (n / d) :=
  if_neg (Nat.ne_of_gt h)

end Word

open Word

/-! ## Addresses -/

namespace Layout

variable (l : Layout)

/-- Takes a bus address apart by masks and shifts. -/
def split? (addr : Nat) : Option Address := do
  let addr := addr &&& (← lowMask? l.addrWidth)
  let offset := addr &&& (← lowMask? l.offsetBits)
  let line := (← shiftRight? addr l.offsetBits) &&& (← lowMask? l.lineBits)
  return ⟨offset, line, shiftRightOrZero addr (l.offsetBits + l.lineBits)⟩

/-- The block of a line and a tag, by masks and shifts. -/
def blockAddr? (line tag : Nat) : Option Nat := do
  let line := line &&& (← lowMask? l.lineBits)
  return (shiftLeftOrZero tag l.lineBits ||| line) &&& (← lowMask? l.blockBits)

/-- **Taking an address apart is not refused** when an offset has fewer than 64 bits. -/
theorem split?_eq (h : l.offsetBits < 64) (addr : Nat) : l.split? addr = some (l.split addr) := by
  have hfields := l.fields_le
  have hwidth := l.width_le
  have hclip : addr &&& lowMask l.addrWidth = l.clip addr := l.and_addrMask addr
  have hlt : l.clip addr < 2 ^ 64 :=
    Nat.lt_of_lt_of_le (l.clip_lt addr) (Nat.pow_le_pow_right (by decide) hwidth)
  simp only [split?, lowMask?_eq, shiftRight?_of_lt _ h, Option.bind_eq_bind, Option.bind_some, Option.pure_def,
    hclip, and_lowMask, shiftRightOrZero_eq hlt, lowBits_of_le (show l.offsetBits ≤ 64 by omega),
    lowBits_of_le (show l.lineBits ≤ 64 by omega), split]

/-- **The address of a block is always there.** The fields of a line and a tag do not overlap, so the masks and shifts
make their sum. -/
theorem blockAddr?_eq (line tag : Nat) : l.blockAddr? line tag = some (l.blockAddr line tag) := by
  have hfields := l.fields_le
  have hwidth := l.width_le
  have hline : l.lineBits ≤ 64 := by omega
  have hblock : l.blockBits ≤ 64 := by simp only [blockBits]; omega
  simp only [blockAddr?, lowMask?_eq, Option.bind_eq_bind, Option.bind_some, Option.pure_def, and_lowMask,
    lowBits_of_le hline, lowBits_of_le hblock, Option.some.injEq]
  apply Nat.eq_of_testBit_eq
  intro i
  rw [blockAddr, Nat.mul_comm, Nat.testBit_mod_two_pow, Nat.testBit_mod_two_pow, Nat.testBit_or,
    testBit_shiftLeftOrZero, Nat.testBit_two_pow_mul_add _ (Nat.mod_lt _ (Nat.two_pow_pos _))]
  by_cases hi : i < l.blockBits
  · have hword : i < 64 := Nat.lt_of_lt_of_le hi hblock
    by_cases hlow : i < l.lineBits
    · simp [hi, hlow, Nat.not_le.mpr hlow]
    · simp [hi, hlow, hword, Nat.not_lt.mp hlow]
  · simp [hi]

end Layout

/-- The address of the beat after `addr`, by masks. -/
def BurstKind.next? (k : BurstKind) (mask addr : Nat) : Option Nat :=
  match k.wrapBits with
  | none => some ((addr + 1) % 2 ^ 64 &&& mask)
  | some b => do
    let wrap ← lowMask? b
    return (addr &&& (2 ^ 64 - 1 - wrap) ||| (addr + 1) % 2 ^ 64 &&& wrap) &&& mask

theorem BurstKind.wrapBits_le {k : BurstKind} {b : Nat} (h : k.wrapBits = some b) : b ≤ 4 := by
  cases k <;> cases h <;> decide

/-- **The next address of a burst is always there**, and the mask takes away the carry out of the word. -/
theorem BurstKind.next?_eq (k : BurstKind) {mask : Nat} (hmask : mask < 2 ^ 64) (addr : Nat) :
    k.next? mask addr = some (k.next mask addr) := by
  have hhigh {i : Nat} (hi : ¬ i < 64) : mask.testBit i = false :=
    Nat.testBit_lt_two_pow (Nat.lt_of_lt_of_le hmask (Nat.pow_le_pow_right (by decide) (Nat.not_lt.mp hi)))
  unfold next? next
  cases hb : k.wrapBits with
  | none =>
      refine congrArg some (Nat.eq_of_testBit_eq fun i => ?_)
      rw [Nat.testBit_and, Nat.testBit_and, Nat.testBit_mod_two_pow]
      by_cases hi : i < 64
      · rw [decide_eq_true hi, Bool.true_and]
      · rw [hhigh hi, Bool.and_false, Bool.and_false]
  | some b =>
      have hle : b ≤ 4 := wrapBits_le hb
      have hwrap : lowMask b < 2 ^ 64 := lowMask_lt (Nat.min_le_right ..)
      simp only [lowMask?_eq, Option.bind_eq_bind, Option.bind_some, Option.pure_def]
      refine congrArg some (Nat.eq_of_testBit_eq fun i => ?_)
      rw [Nat.testBit_and, Nat.testBit_and, Nat.testBit_or, Nat.testBit_and, Nat.testBit_and, Nat.mul_comm,
        Nat.testBit_two_pow_mul_add _ (Nat.mod_lt _ (Nat.two_pow_pos b)), Nat.testBit_mod_two_pow,
        Nat.testBit_mod_two_pow, Nat.testBit_div_two_pow, Nat.sub_sub, Nat.add_comm 1,
        Nat.testBit_two_pow_sub_succ hwrap, lowMask_of_le (by omega), Nat.testBit_two_pow_sub_one]
      by_cases hi : i < 64
      · by_cases hlow : i < b
        · simp [hi, hlow]
        · simp [hi, hlow, Nat.sub_add_cancel (Nat.not_lt.mp hlow)]
      · rw [hhigh hi, Bool.and_false, Bool.and_false]

/-! ## Blocks -/

namespace Block

/-- The bytes from `start` to `stop`. -/
def range? (start stop : Nat) (block : Block) : Option Block :=
  if start ≤ stop ∧ stop ≤ block.length then some (slice start (stop - start) block) else none

/-- The bytes of `source`, which take the place of as many others. -/
def copy? (target source : Block) : Option Block :=
  if target.length = source.length then some source else none

/-- The block with the bytes from `start` to `stop` replaced by others. -/
def overwrite? (start stop : Nat) (source block : Block) : Option Block := do
  let bytes ← copy? (← range? start stop block) source
  return block.take start ++ bytes ++ block.drop stop

/-- Takes granule number `i` of `new` into a block where the mask says so. -/
def mergeGranule? (granule mask : Nat) (new : Block) (block : Block) (i : Nat) : Option Block := do
  if mask &&& (← shiftLeft? 1 i) = 0 then
    return block
  else
    overwrite? (i * granule) ((i + 1) * granule) (← range? (i * granule) ((i + 1) * granule) new) block

/-- Takes whole granules of `new`, which has to be as long as `old`, into `old`, one after the other. -/
def merge? (granule mask : Nat) (new old : Block) : Option Block := do
  let new ← copy? old new
  let granules ← divide? old.length granule
  (List.range granules).foldlM (mergeGranule? granule mask new) old

/-- The first `n` bytes of an endless repetition. -/
def cycle (n : Nat) (bytes : Block) : Block := (List.range n).filterMap fun i => bytes[i % bytes.length]?

/-- A block of `n` bytes that repeats the low `size` bytes of a word. -/
def fill? (size n word : Nat) : Option Block := do
  return cycle n (← range? 0 size (ofNat 8 word))

/-- The word that the bytes write, shifted together from the high byte down. -/
def toNat? (bytes : Block) : Option Nat :=
  bytes.foldrM (fun b rest => do return (← shiftLeft? rest 8) ||| b.toNat) 0

/-- Word number `index` of a block of words of `size` bytes. -/
def word? (size index : Nat) (block : Block) : Option Nat := do
  toNat? (← range? (index * size) (index * size + size) block)

/-- A range that ends within the block is there. -/
theorem range?_of_le {start n : Nat} {block : Block} (h : start + n ≤ block.length) :
    range? start (start + n) block = some (slice start n block) := by
  rw [range?, if_pos ⟨Nat.le_add_right .., h⟩, Nat.add_sub_cancel_left]

/-- A range has as many bytes as it is asked for. -/
theorem length_slice {start n : Nat} {block : Block} (h : start + n ≤ block.length) :
    (slice start n block).length = n := by
  rw [slice, List.length_take, List.length_drop]
  omega

/-- The bytes of a range are those of the block behind its start. -/
theorem getElem?_slice (start n : Nat) (block : Block) (i : Nat) :
    (slice start n block)[i]? = if i < n then block[start + i]? else none := by
  rw [slice, List.getElem?_take, List.getElem?_drop]

/-- The bytes of a block after a range of it was replaced. -/
theorem getElem?_splice {start n : Nat} {bytes block : Block} (hn : bytes.length = n)
    (h : start + n ≤ block.length) (i : Nat) :
    (block.take start ++ bytes ++ block.drop (start + n))[i]? =
      if start ≤ i ∧ i < start + n then bytes[i - start]? else block[i]? := by
  have hstart : (block.take start).length = start := by rw [List.length_take]; omega
  rw [List.append_assoc, List.getElem?_append, hstart, List.getElem?_append, hn, List.getElem?_take,
    List.getElem?_drop]
  by_cases hlow : i < start
  · rw [if_pos hlow, if_pos hlow, if_neg (by omega)]
  · by_cases hhigh : i < start + n
    · rw [if_neg hlow, if_pos (by omega), if_pos (by omega)]
    · rw [if_neg hlow, if_neg (by omega), if_neg (by omega), show start + n + (i - start - n) = i by omega]

/-- A repeated word fills a block. -/
theorem cycle_ofNat (size count word : Nat) : cycle (count * size) (ofNat size word) = fill size count word := by
  rcases Nat.eq_zero_or_pos size with rfl | hsize
  · simp [cycle, fill, ofNat]
  · have hbyte (i : Nat) : (ofNat size word)[i % (ofNat size word).length]? =
        some ((ofNat size word).getD (i % size) 0) := by
      rw [length_ofNat, List.getD_eq_getElem?_getD, getElem?_ofNat, if_pos (Nat.mod_lt i hsize), Option.getD_some]
    have hcycle : cycle (count * size) (ofNat size word) =
        (List.range (count * size)).map fun i => (ofNat size word).getD (i % size) 0 := by
      simp only [cycle, hbyte, List.filterMap_eq_map']
    apply List.ext_getElem?
    intro i
    rw [hcycle, getElem?_fill, List.getElem?_map]
    by_cases hi : i < count * size
    · rw [List.getElem?_range hi, if_pos hi, Option.map_some, ← hbyte, length_ofNat]
    · rw [List.getElem?_eq_none (by simpa using hi), if_neg hi, Option.map_none]

/-- The low bytes of a word that is written out as a whole. -/
theorem slice_ofNat {n size : Nat} (h : n ≤ size) (word : Nat) : slice 0 n (ofNat size word) = ofNat n word := by
  apply List.ext_getElem?
  intro i
  rw [slice, List.drop_zero, List.getElem?_take, getElem?_ofNat, getElem?_ofNat]
  by_cases hi : i < n
  · rw [if_pos hi, if_pos hi, if_pos (by omega)]
  · rw [if_neg hi, if_neg hi]

/-- **Repeating a word is not refused** when it has no more than the eight bytes of a machine word. -/
theorem fill?_eq {size : Nat} (hsize : size ≤ 8) (count word : Nat) :
    fill? size (count * size) word = some (fill size count word) := by
  have hle : 0 + size ≤ (ofNat 8 word).length := by rwa [Nat.zero_add, length_ofNat]
  have hrange : range? 0 size (ofNat 8 word) = some (ofNat size word) := by
    rw [← slice_ofNat hsize, ← range?_of_le hle, Nat.zero_add]
  rw [fill?, hrange, Option.bind_eq_bind, Option.bind_some, cycle_ofNat]
  rfl

/-- **Shifting the bytes of a word together** loses none of them when there are at most eight. -/
theorem toNat?_eq {bytes : Block} (h : bytes.length ≤ 8) : toNat? bytes = some (toNat bytes) := by
  induction bytes with
  | nil => rfl
  | cons b rest ih =>
      rw [List.length_cons] at h
      have hb : b.toNat < 2 ^ 8 := b.toNat_lt
      have hrest : toNat rest < 256 ^ 7 :=
        Nat.lt_of_lt_of_le (toNat_lt rest) (Nat.pow_le_pow_right (by decide) (by omega))
      have hshift : shiftLeft? (toNat rest) 8 = some (toNat rest <<< 8) :=
        shiftLeft?_of_lt (by decide) (by rw [Nat.shiftLeft_eq]; omega)
      have hfold : toNat? (b :: rest) = toNat? rest >>= fun n => do return (← shiftLeft? n 8) ||| b.toNat :=
        List.foldrM_cons ..
      have hor : toNat rest <<< 8 ||| b.toNat = toNat (b :: rest) := by
        rw [← Nat.shiftLeft_add_eq_or_of_lt hb, Nat.shiftLeft_eq, Nat.add_comm, Nat.mul_comm]
        rfl
      rw [hfold, ih (by omega), Option.bind_eq_bind, Option.bind_some, hshift, Option.bind_some, hor]
      rfl

/-- **A word of a block is there** when the block does not end before it. -/
theorem word?_eq {size index : Nat} {block : Block} (hsize : size ≤ 8)
    (h : index * size + size ≤ block.length) : word? size index block = some (word size index block) := by
  rw [word?, range?_of_le h, Option.bind_eq_bind, Option.bind_some, toNat?_eq (by rwa [length_slice h]), word]

/-! ### Granule by granule -/

/-- The first `n` granules of a masked change. -/
def mergeUpTo (n granule mask : Nat) (new old : Block) : Block :=
  old.mapIdx fun i b => if i / granule < n ∧ mask.testBit (i / granule) then new.getD i b else b

section MergeUpTo

variable (n granule mask : Nat) (new old : Block)

/-- No granule at all changes nothing. -/
theorem mergeUpTo_zero : mergeUpTo 0 granule mask new old = old := by
  apply List.ext_getElem?
  simp [mergeUpTo]

/-- The whole change is that of every granule. -/
theorem mergeUpTo_length_div : mergeUpTo (old.length / granule) granule mask new old = merge granule mask new old :=
  rfl

@[simp] theorem length_mergeUpTo : (mergeUpTo n granule mask new old).length = old.length := by
  simp [mergeUpTo]

/-- The bytes of the first granules are those of the change, where the mask says so. -/
theorem getElem?_mergeUpTo (i : Nat) :
    (mergeUpTo n granule mask new old)[i]? = old[i]?.map fun b =>
      if i / granule < n ∧ mask.testBit (i / granule) then new.getD i b else b := by
  simp [mergeUpTo]

/-- One granule more changes the bytes of that granule, if the mask enables it. -/
theorem getElem?_mergeUpTo_succ (i : Nat) :
    (mergeUpTo (n + 1) granule mask new old)[i]? =
      if i / granule = n ∧ mask.testBit n then old[i]?.map fun b => new.getD i b
      else (mergeUpTo n granule mask new old)[i]? := by
  rw [getElem?_mergeUpTo, getElem?_mergeUpTo]
  by_cases hn : i / granule = n
  · cases hbit : mask.testBit n <;> simp [hn, hbit]
  · have hlt : i / granule < n + 1 ↔ i / granule < n := by omega
    simp only [hlt, hn, false_and, if_false]

end MergeUpTo

/-- A mask and a single bit have something in common exactly when the mask has the bit. -/
theorem and_two_pow_eq_zero_iff (mask n : Nat) : mask &&& 2 ^ n = 0 ↔ mask.testBit n = false := by
  constructor
  · intro h
    simpa [Nat.testBit_and, Nat.testBit_two_pow_self] using congrArg (Nat.testBit · n) h
  · intro h
    apply Nat.eq_of_testBit_eq
    intro i
    rw [Nat.testBit_and, Nat.testBit_two_pow, Nat.zero_testBit]
    by_cases hi : n = i
    · rw [← hi, h, Bool.false_and]
    · rw [decide_eq_false hi, Bool.and_false]

/-- One granule more. -/
theorem mergeGranule?_mergeUpTo {n granule mask : Nat} {new old : Block} (hgranule : 0 < granule) (hn : n < 64)
    (hle : (n + 1) * granule ≤ old.length) (hlen : new.length = old.length) :
    mergeGranule? granule mask new (mergeUpTo n granule mask new old) n =
      some (mergeUpTo (n + 1) granule mask new old) := by
  simp only [mergeGranule?, shiftLeft?_one hn, Option.bind_eq_bind, Option.bind_some, Option.pure_def,
    and_two_pow_eq_zero_iff]
  cases hbit : mask.testBit n with
  | false =>
      rw [if_pos rfl]
      refine congrArg some (List.ext_getElem? fun i => ?_)
      rw [getElem?_mergeUpTo_succ, hbit, if_neg (by simp)]
  | true =>
      rw [Nat.succ_mul] at hle
      have hold : n * granule + granule ≤ (mergeUpTo n granule mask new old).length := by simpa using hle
      have hnew : n * granule + granule ≤ new.length := hlen ▸ hle
      rw [if_neg (by decide), Nat.succ_mul, range?_of_le hnew]
      simp only [overwrite?, range?_of_le hold, copy?, length_slice hold, length_slice hnew,
        Option.bind_eq_bind, Option.bind_some, Option.pure_def, if_true]
      -- the bytes that were replaced are those whose granule is number n
      refine congrArg some (List.ext_getElem? fun i => ?_)
      have hdiv : i / granule = n ↔ n * granule ≤ i ∧ i < n * granule + granule := by
        rw [Nat.div_eq_iff hgranule]
        omega
      rw [getElem?_splice (length_slice hnew) hold, getElem?_mergeUpTo_succ, getElem?_slice, hbit]
      by_cases hi : i / granule = n
      · obtain ⟨hlow, hhigh⟩ := hdiv.mp hi
        have hinew : i < new.length := Nat.lt_of_lt_of_le hhigh hnew
        have hslice : i - n * granule < granule := by omega
        rw [if_pos (hdiv.mp hi), if_pos (And.intro hi rfl), if_pos hslice, Nat.add_sub_cancel' hlow,
          List.getElem?_eq_getElem hinew, List.getElem?_eq_getElem (hlen ▸ hinew), Option.map_some,
          List.getD_eq_getElem?_getD, List.getElem?_eq_getElem hinew, Option.getD_some]
      · rw [if_neg (mt hdiv.mpr hi), if_neg (fun h => hi h.1)]

/-- **Granule by granule, nothing is out of range**, and all of them together make the masked change. -/
theorem merge?_eq {granule mask : Nat} {new old : Block} (hgranule : 0 < granule)
    (hcount : old.length / granule ≤ 64) (hlen : new.length = old.length) :
    merge? granule mask new old = some (merge granule mask new old) := by
  have hfold : ∀ n ≤ old.length / granule,
      (List.range n).foldlM (mergeGranule? granule mask new) old = some (mergeUpTo n granule mask new old) := by
    intro n hn
    induction n with
    | zero => rw [mergeUpTo_zero]; rfl
    | succ n ih =>
        have hle : (n + 1) * granule ≤ old.length :=
          Nat.le_trans (Nat.mul_le_mul_right _ hn) (Nat.div_mul_le_self ..)
        rw [List.range_succ, List.foldlM_append, ih (by omega), Option.bind_eq_bind, Option.bind_some,
          List.foldlM_cons, mergeGranule?_mergeUpTo hgranule (by omega) hle hlen]
        rfl
  simp only [merge?, copy?, hlen, divide?_of_pos _ hgranule, Option.bind_eq_bind, Option.bind_some, if_true]
  rw [hfold _ (Nat.le_refl _), mergeUpTo_length_div]

end Block

/-! ## The memory of line contents -/

namespace DataMemory

variable (m : DataMemory)

/-- The mask of a whole line, with a bit for each granule. -/
def lineMask? : Option Nat := do lowMask? (← divide? m.out.length m.granuleBytes)

/-- The line that an enabled read copies into the read register. -/
def sample? : (read : Option Nat) → Option Block
  | none => some m.out
  | some line => do Block.copy? m.out (← m.cells[line]?)

/-- The cells after an enabled write, which changes its line granule by granule. -/
def change? : (write : Option DataWrite) → Option (Array Block)
  | none => some m.cells
  | some w => do
    let cell ← Block.merge? m.granuleBytes w.mask w.data (← m.cells[w.line]?)
    return m.cells.setIfInBounds w.line cell

/-- One clock edge: first the read, then the write. -/
def edge? (read : Option Nat) (write : Option DataWrite) : Option DataMemory := do
  let out ← m.sample? read
  return ⟨⟨← m.change? write, out⟩, m.granuleBytes⟩

variable {m} {g : Geometry}

/-- The mask of a whole line is there. -/
theorem Shaped.lineMask?_eq (h : m.Shaped g) : m.lineMask? = some m.fullMask := by
  rw [lineMask?, divide?_of_pos _ (h.granuleBytes_eq ▸ g.granuleBytes_pos), Option.bind_eq_bind,
    Option.bind_some, lowMask?_eq, fullMask]

/-- A read is not refused when it names a line of the memory. -/
theorem Shaped.sample?_eq (h : m.Shaped g) {read : Option Nat} (hread : ∀ line ∈ read, line < g.lines) :
    m.sample? read = some (m.sample read) := by
  cases read with
  | none => rfl
  | some line =>
      obtain ⟨block, hpeek, hlen⟩ := h.exists_cell (hread line rfl)
      have hcell : m.cells[line]? = some block := hpeek
      rw [sample?, hcell, Option.bind_eq_bind, Option.bind_some, Block.copy?,
        if_pos (h.length_out.trans hlen.symm), LineMemory.sample, Array.getD_eq_getD_getElem?, hcell,
        Option.getD_some]

/-- A write is not refused when it names a line of the memory and brings a block as long as the lines. -/
theorem Shaped.change?_eq (h : m.Shaped g) {write : Option DataWrite}
    (hwrite : ∀ w ∈ write, w.line < g.lines ∧ w.data.length = g.lineBytes) :
    m.change? write = some (m.change (write.map (lineChange m.granuleBytes))).cells := by
  cases write with
  | none => rfl
  | some w =>
      obtain ⟨hline, hdata⟩ := hwrite w rfl
      obtain ⟨old, hpeek, hold⟩ := h.exists_cell hline
      have hcell : m.cells[w.line]? = some old := hpeek
      have hgranule : 0 < m.granuleBytes := h.granuleBytes_eq ▸ g.granuleBytes_pos
      have hcount : old.length / m.granuleBytes ≤ 64 :=
        Nat.le_trans (Nat.div_le_self ..) (hold ▸ g.lineBytes_le)
      rw [change?, hcell, Option.bind_eq_bind, Option.bind_some,
        Block.merge?_eq hgranule hcount (hdata.trans hold.symm), Option.bind_some]
      refine congrArg some (Array.ext_getElem? fun i => ?_)
      show _ = (m.cells.modify w.line (Block.merge m.granuleBytes w.mask w.data))[i]?
      rw [Array.getElem?_setIfInBounds, Array.getElem?_modify]
      by_cases hi : w.line = i
      · obtain ⟨hlt, _⟩ := Array.getElem?_eq_some_iff.mp hcell
        rw [if_pos hi, if_pos hi, if_pos hlt, ← hi, hcell, Option.map_some]
      · rw [if_neg hi, if_neg hi]

/-- **An edge of a memory is not refused** when it names lines of the memory and writes a block as long as they are. -/
theorem Shaped.edge?_eq (h : m.Shaped g) {read : Option Nat} {write : Option DataWrite}
    (hread : ∀ line ∈ read, line < g.lines)
    (hwrite : ∀ w ∈ write, w.line < g.lines ∧ w.data.length = g.lineBytes) :
    m.edge? read write = some (m.clock read write) := by
  rw [edge?, h.sample?_eq hread, h.change?_eq hwrite]
  rfl

end DataMemory

end WriteBack
