import WriteBack.Address

/-!
# WriteBack.Proofs.Layout

How the fields of an address determine it, and how a line and a tag determine a block of the backing store.
Taking apart and putting together undo each other (`join_split`, `split_join`), up to the bits that a field or
an address has no room for. Fields in range name different blocks (`blockAddr_inj`), so a block that is written
back never overwrites the block of another line or tag, and every block has a name (`exists_blockAddr`).
-/

namespace WriteBack.Layout

variable (l : Layout)

theorem tagBits_add_fields : l.tagBits + (l.offsetBits + l.lineBits) = l.addrWidth := by
  have := l.fields_le
  simp only [tagBits]
  omega

theorem tagMask_eq : l.tagMask = 2 ^ l.tagBits - 1 := by
  have := l.width_le
  have := l.tagBits_add_fields
  exact lowMask_of_le (by omega)

/-- The tags are the numbers of the width of a tag. -/
theorem le_tagMask_iff (tag : Nat) : tag ≤ l.tagMask ↔ tag < 2 ^ l.tagBits := by
  have := Nat.two_pow_pos l.tagBits
  rw [tagMask_eq]
  omega

/-- The largest tag is a tag. -/
theorem tagMask_lt : l.tagMask < 2 ^ l.tagBits :=
  lowMask_lt (Nat.min_le_left ..)

/-! ## Taking an address apart -/

theorem split_tag_lt (addr : Nat) : (l.split addr).tag < 2 ^ l.tagBits := by
  have hlt := l.clip_lt addr
  rw [← l.tagBits_add_fields, Nat.pow_add, Nat.mul_comm] at hlt
  exact Nat.div_lt_of_lt_mul hlt

/-- An address is the sum of its fields. -/
theorem clip_eq_fields (addr : Nat) :
    l.clip addr = (l.split addr).tag * 2 ^ (l.offsetBits + l.lineBits)
      + ((l.split addr).line * 2 ^ l.offsetBits + (l.split addr).offset) := by
  have htag : l.clip addr / 2 ^ (l.offsetBits + l.lineBits) =
      l.clip addr / 2 ^ l.offsetBits / 2 ^ l.lineBits := by
    rw [Nat.div_div_eq_div_mul, ← Nat.pow_add]
  have hlow := Nat.div_add_mod (l.clip addr) (2 ^ l.offsetBits)
  have hhigh := Nat.div_add_mod (l.clip addr / 2 ^ l.offsetBits) (2 ^ l.lineBits)
  simp only [split, htag]
  generalize l.clip addr / 2 ^ l.offsetBits / 2 ^ l.lineBits = t at hhigh ⊢
  generalize l.clip addr / 2 ^ l.offsetBits % 2 ^ l.lineBits = n at hhigh ⊢
  calc
    l.clip addr = 2 ^ l.offsetBits * (2 ^ l.lineBits * t + n) + l.clip addr % 2 ^ l.offsetBits := by
      rw [hhigh, hlow]
    _ = t * 2 ^ (l.offsetBits + l.lineBits) + (n * 2 ^ l.offsetBits + l.clip addr % 2 ^ l.offsetBits) := by
      rw [Nat.pow_add, Nat.mul_add, ← Nat.mul_assoc, Nat.mul_comm _ t, Nat.mul_comm _ n, Nat.add_assoc]

/-- Addresses with the same fields are the same. -/
theorem split_inj {a b : Nat} : l.split a = l.split b ↔ l.clip a = l.clip b := by
  constructor
  · intro h
    rw [l.clip_eq_fields a, l.clip_eq_fields b, h]
  · intro h
    rw [← l.split_clip a, ← l.split_clip b, h]

/-! ## Naming a block -/

/-- With both fields in range no bit of them is lost. -/
theorem blockAddr_eq {line tag : Nat} (hline : line < 2 ^ l.lineBits) (htag : tag < 2 ^ l.tagBits) :
    l.blockAddr line tag = tag * 2 ^ l.lineBits + line := by
  have hle : (tag + 1) * 2 ^ l.lineBits ≤ 2 ^ l.tagBits * 2 ^ l.lineBits :=
    Nat.mul_le_mul_right _ htag
  rw [Nat.succ_mul, ← Nat.pow_add, l.tagBits_add] at hle
  rw [blockAddr, Nat.mod_eq_of_lt hline, Nat.mod_eq_of_lt (by omega)]

theorem blockAddr_lt (line tag : Nat) : l.blockAddr line tag < 2 ^ l.blockBits :=
  Nat.mod_lt _ (Nat.two_pow_pos _)

/-- **No aliasing**: different lines or tags in range name different blocks. -/
theorem blockAddr_inj {line line' tag tag' : Nat} (hline : line < 2 ^ l.lineBits)
    (hline' : line' < 2 ^ l.lineBits) (htag : tag < 2 ^ l.tagBits) (htag' : tag' < 2 ^ l.tagBits) :
    l.blockAddr line tag = l.blockAddr line' tag' ↔ line = line' ∧ tag = tag' := by
  rw [l.blockAddr_eq hline htag, l.blockAddr_eq hline' htag']
  constructor
  · intro h
    have hmod := congrArg (· % 2 ^ l.lineBits) h
    have hdiv := congrArg (· / 2 ^ l.lineBits) h
    simp only [Nat.mul_comm _ (2 ^ l.lineBits), Nat.mul_add_mod, Nat.mod_eq_of_lt hline,
      Nat.mod_eq_of_lt hline'] at hmod
    simp only [Nat.mul_comm _ (2 ^ l.lineBits), Nat.mul_add_div (Nat.two_pow_pos _),
      Nat.div_eq_of_lt hline, Nat.div_eq_of_lt hline', Nat.add_zero] at hdiv
    exact ⟨hmod, hdiv⟩
  · rintro ⟨rfl, rfl⟩
    rfl

/-- Every block is that of a line and a tag. -/
theorem exists_blockAddr {block : Nat} (h : block < 2 ^ l.blockBits) :
    ∃ line < 2 ^ l.lineBits, ∃ tag < 2 ^ l.tagBits, l.blockAddr line tag = block := by
  rw [← l.tagBits_add, Nat.pow_add, Nat.mul_comm] at h
  have hline := Nat.mod_lt block (Nat.two_pow_pos l.lineBits)
  have htag : block / 2 ^ l.lineBits < 2 ^ l.tagBits := Nat.div_lt_of_lt_mul h
  refine ⟨_, hline, _, htag, ?_⟩
  rw [l.blockAddr_eq hline htag, Nat.mul_comm, Nat.div_add_mod]

/-- The block of an address is the address without its offset. -/
theorem blockAddr_split (addr : Nat) :
    l.blockAddr (l.split addr).line (l.split addr).tag = l.clip addr / 2 ^ l.offsetBits := by
  have hclip : l.clip addr = (l.split addr).offset
      + ((l.split addr).tag * 2 ^ l.lineBits + (l.split addr).line) * 2 ^ l.offsetBits := by
    rw [l.clip_eq_fields addr, Nat.add_mul, Nat.mul_assoc, ← Nat.pow_add, Nat.add_comm l.lineBits]
    omega
  rw [l.blockAddr_eq (l.split_line_lt addr) (l.split_tag_lt addr), hclip,
    Nat.add_mul_div_right _ _ (Nat.two_pow_pos _), Nat.div_eq_of_lt (l.split_offset_lt addr), Nat.zero_add]

/-- Addresses lie in one block exactly when they agree in every bit above the offset. -/
theorem blockAddr_split_eq_iff (a b : Nat) :
    l.blockAddr (l.split a).line (l.split a).tag = l.blockAddr (l.split b).line (l.split b).tag ↔
      ∀ i, l.offsetBits ≤ i → i < l.addrWidth → a.testBit i = b.testBit i := by
  rw [blockAddr_split, blockAddr_split]
  constructor
  · intro h i hlow hhigh
    have hbit := congrArg (Nat.testBit · (i - l.offsetBits)) h
    simpa [clip, Nat.testBit_div_two_pow, Nat.testBit_mod_two_pow, Nat.sub_add_cancel hlow, hhigh]
      using hbit
  · intro h
    apply Nat.eq_of_testBit_eq
    intro i
    simp only [clip, Nat.testBit_div_two_pow, Nat.testBit_mod_two_pow]
    by_cases hhigh : i + l.offsetBits < l.addrWidth
    · rw [h _ (Nat.le_add_left ..) hhigh]
    · rw [decide_eq_false hhigh, Bool.false_and, Bool.false_and]

/-! ## Putting an address together -/

/-- The low two fields stay below the tag. -/
theorem lowFields_lt {offset line : Nat} (hoffset : offset < 2 ^ l.offsetBits)
    (hline : line < 2 ^ l.lineBits) :
    line * 2 ^ l.offsetBits + offset < 2 ^ (l.offsetBits + l.lineBits) := by
  have hle : (line + 1) * 2 ^ l.offsetBits ≤ 2 ^ l.lineBits * 2 ^ l.offsetBits :=
    Nat.mul_le_mul_right _ hline
  rw [Nat.succ_mul, ← Nat.pow_add, Nat.add_comm l.lineBits] at hle
  omega

/-- An address put together is the sum of its fields, each cut to its width. -/
theorem join_eq_fields (a : Address) :
    l.join a = a.tag % 2 ^ l.tagBits * 2 ^ (l.offsetBits + l.lineBits)
      + (a.line % 2 ^ l.lineBits * 2 ^ l.offsetBits + a.offset % 2 ^ l.offsetBits) := by
  have hlow := l.lowFields_lt (Nat.mod_lt a.offset (Nat.two_pow_pos _)) (Nat.mod_lt a.line (Nat.two_pow_pos _))
  rw [join, clip, ← l.tagBits_add_fields, Nat.add_comm l.tagBits, Nat.pow_add _ _ l.tagBits, Nat.mod_mul,
    Nat.add_assoc, Nat.mul_comm a.tag, Nat.mul_add_mod, Nat.mod_eq_of_lt hlow,
    Nat.mul_add_div (Nat.two_pow_pos _), Nat.div_eq_of_lt hlow, Nat.add_zero, Nat.add_comm, Nat.mul_comm]

/-- Fields within their widths come back as they were. -/
theorem split_fields {offset line tag : Nat} (hoffset : offset < 2 ^ l.offsetBits)
    (hline : line < 2 ^ l.lineBits) (htag : tag < 2 ^ l.tagBits) :
    l.split (tag * 2 ^ (l.offsetBits + l.lineBits) + (line * 2 ^ l.offsetBits + offset)) =
      ⟨offset, line, tag⟩ := by
  have hlow := l.lowFields_lt hoffset hline
  have hclip : l.clip (tag * 2 ^ (l.offsetBits + l.lineBits) + (line * 2 ^ l.offsetBits + offset)) =
      2 ^ (l.offsetBits + l.lineBits) * tag + (2 ^ l.offsetBits * line + offset) := by
    have hle : (tag + 1) * 2 ^ (l.offsetBits + l.lineBits) ≤ 2 ^ l.tagBits * 2 ^ (l.offsetBits + l.lineBits) :=
      Nat.mul_le_mul_right _ htag
    rw [Nat.succ_mul, ← Nat.pow_add, l.tagBits_add_fields] at hle
    rw [clip, Nat.mod_eq_of_lt (by omega), Nat.mul_comm tag, Nat.mul_comm line]
  rw [Nat.mul_comm line] at hlow
  have hoffset' : (2 ^ (l.offsetBits + l.lineBits) * tag + (2 ^ l.offsetBits * line + offset)) % 2 ^ l.offsetBits =
      offset := by
    rw [Nat.pow_add, Nat.mul_assoc, Nat.mul_add_mod, Nat.mul_add_mod, Nat.mod_eq_of_lt hoffset]
  have hline' : (2 ^ (l.offsetBits + l.lineBits) * tag + (2 ^ l.offsetBits * line + offset)) / 2 ^ l.offsetBits
      % 2 ^ l.lineBits = line := by
    rw [Nat.pow_add, Nat.mul_assoc, Nat.mul_add_div (Nat.two_pow_pos _), Nat.mul_add_div (Nat.two_pow_pos _),
      Nat.div_eq_of_lt hoffset, Nat.add_zero, Nat.mul_add_mod, Nat.mod_eq_of_lt hline]
  have htag' : (2 ^ (l.offsetBits + l.lineBits) * tag + (2 ^ l.offsetBits * line + offset))
      / 2 ^ (l.offsetBits + l.lineBits) = tag := by
    rw [Nat.mul_add_div (Nat.two_pow_pos _), Nat.div_eq_of_lt hlow, Nat.add_zero]
  rw [split, hclip, hoffset', hline', htag']

/-- Taking an address apart gives back the fields it was put together from, each cut to its width. -/
theorem split_join (a : Address) :
    l.split (l.join a) =
      ⟨a.offset % 2 ^ l.offsetBits, a.line % 2 ^ l.lineBits, a.tag % 2 ^ l.tagBits⟩ := by
  rw [join_eq_fields]
  exact l.split_fields (Nat.mod_lt _ (Nat.two_pow_pos _)) (Nat.mod_lt _ (Nat.two_pow_pos _))
    (Nat.mod_lt _ (Nat.two_pow_pos _))

/-- Putting the fields of an address together gives the address back. -/
theorem join_split (addr : Nat) : l.join (l.split addr) = l.clip addr := by
  rw [join_eq_fields, Nat.mod_eq_of_lt (l.split_tag_lt addr), Nat.mod_eq_of_lt (l.split_line_lt addr),
    Nat.mod_eq_of_lt (l.split_offset_lt addr), ← clip_eq_fields]

/-! ## The layouts that are built -/

/-- A layout of `words` bus words in a line and `lines` lines loses and repeats nothing: an address and its fields
determine each other, and so do a block of the store and its line and tag. -/
structure Bijective (l : Layout) (words lines : Nat) : Prop where
  /-- The fields of an address are within their widths. -/
  fields_in_range : ∀ addr, (l.split addr).offset < words ∧ (l.split addr).line < lines ∧
    (l.split addr).tag ≤ l.tagMask
  /-- The fields of an address give the address back. -/
  address_of_fields : ∀ addr, l.join (l.split addr) = addr &&& l.addrMask
  /-- An address gives the fields back, each of them modulo its width. -/
  fields_of_address : ∀ a, l.split (l.join a) = ⟨a.offset % words, a.line % lines, a.tag % 2 ^ l.tagBits⟩
  /-- The block of an address is the address without its offset. -/
  block_of_address : ∀ addr, l.blockAddr (l.split addr).line (l.split addr).tag =
    (addr &&& l.addrMask) >>> l.offsetBits
  /-- Different lines or tags have different blocks. -/
  block_inj : ∀ line < lines, ∀ line' < lines, ∀ tag ≤ l.tagMask, ∀ tag' ≤ l.tagMask,
    l.blockAddr line tag = l.blockAddr line' tag' → line = line' ∧ tag = tag'
  /-- Every block is that of a line and a tag. -/
  block_surj : ∀ block < 2 ^ l.blockBits, ∃ line < lines, ∃ tag ≤ l.tagMask, l.blockAddr line tag = block
  /-- Two addresses share a block exactly when they differ in no bit but those of the offset. -/
  same_block : ∀ a b,
    l.blockAddr (l.split a).line (l.split a).tag = l.blockAddr (l.split b).line (l.split b).tag ↔
      ∀ i, l.offsetBits ≤ i → i < l.addrWidth → a.testBit i = b.testBit i

/-- **An address layout is a bijection**, for every address width, every number of words in a line and every number
of lines that a layout is built for. -/
theorem address_fields_bijective {addrWidth words lines : Nat} {l : Layout}
    (h : ofCounts addrWidth words lines = .ok l) :
    l.addrWidth = addrWidth ∧ l.tagBits = addrWidth - words.log2 - lines.log2 ∧
      l.blockBits = addrWidth - words.log2 ∧ l.Bijective words lines := by
  obtain ⟨rfl, rfl, rfl⟩ := ofCounts_eq_ok h
  refine ⟨rfl, by rw [Nat.log2_two_pow, Nat.log2_two_pow, tagBits], by rw [Nat.log2_two_pow, blockBits], ?_⟩
  exact {
    fields_in_range addr :=
      ⟨l.split_offset_lt addr, l.split_line_lt addr, (l.le_tagMask_iff _).mpr (l.split_tag_lt addr)⟩
    address_of_fields addr := by rw [join_split, and_addrMask]
    fields_of_address := l.split_join
    block_of_address addr := by rw [blockAddr_split, and_addrMask, Nat.shiftRight_eq_div_pow]
    block_inj line hline line' hline' tag htag tag' htag' :=
      (l.blockAddr_inj hline hline' ((l.le_tagMask_iff tag).mp htag) ((l.le_tagMask_iff tag').mp htag')).mp
    block_surj block hblock := by
      obtain ⟨line, hline, tag, htag, h⟩ := l.exists_blockAddr hblock
      exact ⟨line, hline, tag, (l.le_tagMask_iff tag).mpr htag, h⟩
    same_block := l.blockAddr_split_eq_iff }

/-- Addresses of 64 bits: what a field has no room for is lost, and nothing runs over into the next field. -/
theorem address_fields_bijective_whole_word :
    ∃ l, ofCounts 64 4 16 = .ok l ∧ l.split (l.join ⟨7, 33, 2 ^ 60 + 5⟩) = ⟨3, 1, 5⟩ := by
  have hok : ofCounts 64 4 16 = .ok ⟨64, 2, 4, by decide, by decide⟩ := rfl
  obtain ⟨_, _, _, hl⟩ := address_fields_bijective hok
  refine ⟨_, hok, ?_⟩
  rw [hl.fields_of_address]
  decide

end WriteBack.Layout
