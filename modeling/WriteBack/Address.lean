import WriteBack.Bits
import WriteBack.Geometry.Error

/-!
# WriteBack.Address

Bus addresses count bus words. With `2 ^ o` words in a line and `2 ^ l` lines, an address of `w` bits is

    tag (w - l - o bits) | line (l bits) | offset (o bits)

from high to low. A backing-store block is named by the tag and line fields alone. `Layout.split` takes an
address apart, `Layout.join` puts one together; both are total, and bits beyond a field's width are dropped.
-/

namespace WriteBack

/-- An address taken apart. -/
structure Address where
  /-- Which bus word of the block. -/
  offset : Nat
  /-- Which line of the cache. -/
  line : Nat
  /-- The high-order rest. -/
  tag : Nat
deriving DecidableEq, Repr

/-- The field widths of a bus address, in bits. -/
structure Layout where
  addrWidth : Nat
  offsetBits : Nat
  lineBits : Nat
  /-- The address holds both low fields. -/
  fields_le : offsetBits + lineBits ≤ addrWidth
  /-- The address fits a 64-bit word. -/
  width_le : addrWidth ≤ 64
deriving Repr

namespace Layout

/-- The layout of `addrWidth`-bit addresses for `words` bus words in a line and `lines` lines. -/
def ofCounts (addrWidth words lines : Nat) : Except GeometryError Layout :=
  if !isPow2 words then .error (.notPowerOfTwo .wordsPerLine words)
  else if !isPow2 lines then .error (.notPowerOfTwo .lineCount lines)
  else if hw : addrWidth ≤ 64 then
    if hf : words.log2 + lines.log2 ≤ addrWidth then
      .ok ⟨addrWidth, words.log2, lines.log2, hf, hw⟩
    else .error (.addressTooNarrow addrWidth words.log2 lines.log2)
  else .error (.addressTooWide addrWidth)

/-- A layout that is built has the requested width, and its fields count the words and the lines. -/
theorem ofCounts_eq_ok {addrWidth words lines : Nat} {l : Layout}
    (h : ofCounts addrWidth words lines = .ok l) :
    l.addrWidth = addrWidth ∧ words = 2 ^ l.offsetBits ∧ lines = 2 ^ l.lineBits := by
  unfold ofCounts at h
  split at h
  · cases h
  · next hw =>
    split at h
    · cases h
    · next hl =>
      split at h
      · split at h
        · cases h
          exact ⟨rfl, eq_two_pow_log2 (by simpa using hw), eq_two_pow_log2 (by simpa using hl)⟩
        · cases h
      · cases h

variable (l : Layout)

/-- The width of the tag field. -/
def tagBits : Nat := l.addrWidth - l.offsetBits - l.lineBits

/-- The width of a block address: tag and line field together. -/
def blockBits : Nat := l.addrWidth - l.offsetBits

/-- The mask of the bits of a bus address. -/
def addrMask : Nat := lowMask l.addrWidth

/-- The mask of the bits of a tag, which is also the largest tag. -/
def tagMask : Nat := lowMask l.tagBits

/-- The part of a number that is a bus address. -/
def clip (addr : Nat) : Nat := addr % 2 ^ l.addrWidth

/-- Takes a bus address apart; bits above the address width are ignored. -/
def split (addr : Nat) : Address where
  offset := l.clip addr % 2 ^ l.offsetBits
  line := l.clip addr / 2 ^ l.offsetBits % 2 ^ l.lineBits
  tag := l.clip addr / 2 ^ (l.offsetBits + l.lineBits)

/-- Puts a bus address together; each field counts modulo its width. -/
def join (a : Address) : Nat :=
  l.clip (a.tag * 2 ^ (l.offsetBits + l.lineBits) + a.line % 2 ^ l.lineBits * 2 ^ l.offsetBits
    + a.offset % 2 ^ l.offsetBits)

/-- The block that the given line holds under the given tag: the line in the low bits. -/
def blockAddr (line tag : Nat) : Nat :=
  (tag * 2 ^ l.lineBits + line % 2 ^ l.lineBits) % 2 ^ l.blockBits

/-- Tag and line make up a block address. -/
theorem tagBits_add : l.tagBits + l.lineBits = l.blockBits := by
  have := l.fields_le
  simp only [tagBits, blockBits]
  omega

/-- Block address and offset make up a bus address. -/
theorem blockBits_add : l.blockBits + l.offsetBits = l.addrWidth := by
  have := l.fields_le
  simp only [blockBits]
  omega

theorem split_offset_lt (addr : Nat) : (l.split addr).offset < 2 ^ l.offsetBits :=
  Nat.mod_lt _ (Nat.two_pow_pos _)

theorem split_line_lt (addr : Nat) : (l.split addr).line < 2 ^ l.lineBits :=
  Nat.mod_lt _ (Nat.two_pow_pos _)

/-- A clipped address is one of the bus. -/
theorem clip_lt (addr : Nat) : l.clip addr < 2 ^ l.addrWidth :=
  Nat.mod_lt _ (Nat.two_pow_pos _)

/-- Clipping twice is clipping once. -/
@[simp] theorem clip_clip (addr : Nat) : l.clip (l.clip addr) = l.clip addr := by
  simp [clip]

/-- What is clipped away is in no field. -/
@[simp] theorem split_clip (addr : Nat) : l.split (l.clip addr) = l.split addr := by
  simp [split]

/-- Masking with the address mask keeps the address bits. -/
theorem and_addrMask (addr : Nat) : addr &&& l.addrMask = l.clip addr := by
  simp [addrMask, and_lowMask, lowBits_of_le l.width_le, clip]

end Layout

end WriteBack
