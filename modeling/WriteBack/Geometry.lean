import WriteBack.Address
import WriteBack.Config

/-!
# WriteBack.Geometry

The sizes and widths of one cache, all derived from the requested configuration. `Geometry.ofConfig` makes
every check once; a geometry carries the relations between its numbers that the checks establish, so a
function on geometries never has to check again.
-/

namespace WriteBack

/-- The sizes and widths of a cache. A line holds one block of the backing store. -/
structure Geometry where
  /-- In bytes. -/
  sizeBytes : Nat
  /-- The width of a bus word, in bits. -/
  dataWidth : Nat
  /-- The bits that one select bit covers. -/
  granularity : Nat
  /-- The width of a line, in bits. -/
  backingWidth : Nat
  /-- Bus words in a line. -/
  wordsPerLine : Nat
  /-- Lines in the cache. -/
  lines : Nat
  layout : Layout
  /-- Every line starts out dirty. -/
  dirtyInit : Bool
  /-- The offset field counts the words of a line. -/
  wordsPerLine_eq : wordsPerLine = 2 ^ layout.offsetBits
  /-- The line field counts the lines. -/
  lines_eq : lines = 2 ^ layout.lineBits
  /-- A granule is a whole number of bytes. -/
  granularity_eq : granularity = 8 * (granularity / 8)
  granularity_pos : 0 < granularity
  /-- A bus word is a whole number of granules. -/
  dataWidth_eq : dataWidth = dataWidth / granularity * granularity
  dataWidth_le : dataWidth ≤ 64
  /-- A line is a whole number of bus words. -/
  backingWidth_eq : backingWidth = wordsPerLine * dataWidth
  backingWidth_le : backingWidth ≤ 512
  /-- The lines make up the cache. -/
  sizeBytes_eq : 8 * sizeBytes = lines * backingWidth
deriving Repr

deriving instance DecidableEq for Layout, Geometry

namespace Geometry

/-! ## Derived widths -/

variable (g : Geometry)

/-- Bytes in a bus word. -/
def busBytes : Nat := g.dataWidth / 8

/-- Bytes in a line. -/
def lineBytes : Nat := g.backingWidth / 8

/-- Bytes in a granule. -/
def granuleBytes : Nat := g.granularity / 8

/-- The number of select bits of a bus word. -/
def selWidth : Nat := g.dataWidth / g.granularity

/-- Every granule of a bus word selected. -/
def fullSel : Nat := lowMask g.selWidth

/-- The mask of the bits of a bus word. -/
def dataMask : Nat := lowMask g.dataWidth

/-- Every byte of a line enabled. -/
def fullByteEnable : Nat := lowMask g.lineBytes

/-- Bus words that the cache holds. -/
def cacheWords : Nat := g.lines * g.wordsPerLine

/-- The size of the memory behind the cache in bytes; a size beyond a 64-bit word shows as the largest one. -/
def memoryBytes : Nat := min (2 ^ g.layout.blockBits * g.lineBytes) (2 ^ 64 - 1)

/-! ## The checks -/

/-- A power of two that is not smaller than another is a multiple of it. -/
theorem div_mul_cancel_of_isPow2 {m n : Nat} (hm : isPow2 m = true) (hn : isPow2 n = true)
    (h : n ≤ m) : m / n * n = m := by
  rw [eq_two_pow_log2 hm, eq_two_pow_log2 hn] at h ⊢
  exact Nat.div_mul_cancel (Nat.pow_dvd_pow 2 ((Nat.pow_le_pow_iff_right (by decide)).mp h))

/-- A cache of `size` bytes that holds at least one line of `block` bits holds a whole number of them. -/
theorem div_mul_cancel_of_size {size block : Nat} (hs : isPow2 size = true)
    (hb : isPow2 block = true) (hl : size * 8 / block ≠ 0) :
    8 * size = size * 8 / block * block := by
  have h8 : isPow2 (size * 8) = true := by
    rw [eq_two_pow_log2 hs, show 8 = 2 ^ 3 from rfl, ← Nat.pow_add]
    exact isPow2_two_pow _
  rw [div_mul_cancel_of_isPow2 h8 hb, Nat.mul_comm]
  exact Nat.le_of_not_lt fun hlt => hl (Nat.div_eq_of_lt hlt)

/-- The geometry of the requested cache in front of the requested store, or the first reason why there
is none. -/
def ofConfig (cache : Config.Cache) (backing : Config.Backing) : Except GeometryError Geometry :=
  let size := cache.sizeBytes.toNat
  let width := cache.dataWidth.toNat
  let granule := cache.granularity.toNat
  let block := backing.dataWidth.toNat
  let blockAddrWidth := backing.addrWidth.toNat
  let words := block / width
  let lines := size * 8 / block
  let addrWidth := blockAddrWidth + words.log2
  if hs : isPow2 size = false then .error (.invalidCacheSize size)
  else if hw : isPow2 width = false ∨ 64 < width then .error (.invalidDataWidth width)
  else if hr : block = 0 ∨ block % width ≠ 0 then .error (.invalidRatio block width)
  else if hb : isPow2 block = false ∨ 512 < block then .error (.invalidBackingWidth block)
  else if hg : isPow2 granule = false ∨ granule < 8 ∨ width < granule then
    .error (.invalidGranularity granule width)
  else if 2 ^ 64 ≤ size * 8 then .error (.cacheTooLarge size)
  else if hl : lines = 0 then .error (.cacheTooSmall size block)
  else if 2 ^ 32 ≤ addrWidth then .error (.addressTooWide blockAddrWidth)
  else match hlayout : Layout.ofCounts addrWidth words lines with
    | .error e => .error e
    | .ok layout =>
      have hs : isPow2 size = true := by simpa using hs
      have hw : isPow2 width = true ∧ width ≤ 64 := by simpa using hw
      have hr : block ≠ 0 ∧ block % width = 0 := by simpa using hr
      have hb : isPow2 block = true ∧ block ≤ 512 := by simpa using hb
      have hg : isPow2 granule = true ∧ 8 ≤ granule ∧ granule ≤ width := by simpa using hg
      have counts := Layout.ofCounts_eq_ok hlayout
      .ok {
        sizeBytes := size
        dataWidth := width
        granularity := granule
        backingWidth := block
        wordsPerLine := words
        lines
        layout
        dirtyInit := cache.dirtyInit
        wordsPerLine_eq := counts.2.1
        lines_eq := counts.2.2
        granularity_eq := by
          rw [Nat.mul_comm]
          exact (div_mul_cancel_of_isPow2 hg.1 (isPow2_two_pow 3) hg.2.1).symm
        granularity_pos := pos_of_isPow2 hg.1
        dataWidth_eq := (div_mul_cancel_of_isPow2 hw.1 hg.1 hg.2.2).symm
        dataWidth_le := hw.2
        backingWidth_eq := (Nat.div_mul_cancel (Nat.dvd_of_mod_eq_zero hr.2)).symm
        backingWidth_le := hb.2
        sizeBytes_eq := div_mul_cancel_of_size hs hb.1 hl
      }

/-! ## Relations between the widths -/

theorem granularity_eq_mul (g : Geometry) : g.granularity = 8 * g.granuleBytes := g.granularity_eq

/-- A select bit covers something. -/
theorem granuleBytes_pos (g : Geometry) : 0 < g.granuleBytes := by
  have := g.granularity_pos
  have := g.granularity_eq_mul
  omega

theorem dataWidth_eq_mul (g : Geometry) : g.dataWidth = g.selWidth * g.granularity := g.dataWidth_eq

/-- A bus word is made of the granules that its select bits cover. -/
theorem selWidth_mul_granuleBytes (g : Geometry) : g.selWidth * g.granuleBytes = g.busBytes := by
  have hd := g.dataWidth_eq_mul
  rw [g.granularity_eq_mul] at hd
  rw [busBytes, hd, Nat.mul_left_comm, Nat.mul_div_cancel_left _ (by decide)]

/-- Words consist of whole bytes. -/
theorem dataWidth_eq_busBytes (g : Geometry) : g.dataWidth = 8 * g.busBytes := by
  rw [← g.selWidth_mul_granuleBytes, g.dataWidth_eq_mul, g.granularity_eq_mul, Nat.mul_left_comm]

/-- A line is made of its bus words. -/
theorem lineBytes_eq (g : Geometry) : g.lineBytes = g.wordsPerLine * g.busBytes := by
  rw [lineBytes, g.backingWidth_eq, g.dataWidth_eq_busBytes, Nat.mul_left_comm,
    Nat.mul_div_cancel_left _ (by decide)]

/-- So do lines. -/
theorem backingWidth_eq_lineBytes (g : Geometry) : g.backingWidth = 8 * g.lineBytes := by
  rw [g.lineBytes_eq, g.backingWidth_eq, g.dataWidth_eq_busBytes, Nat.mul_left_comm]

/-- A line has at most 64 bytes. -/
theorem lineBytes_le (g : Geometry) : g.lineBytes ≤ 64 := by
  have := g.backingWidth_le
  have := g.backingWidth_eq_lineBytes
  omega

/-- A word has at most eight bytes. -/
theorem busBytes_le (g : Geometry) : g.busBytes ≤ 8 := by
  have := g.dataWidth_le
  have := g.dataWidth_eq_busBytes
  omega

/-- A word has at most eight select bits. -/
theorem selWidth_le (g : Geometry) : g.selWidth ≤ 8 := by
  have := Nat.le_mul_of_pos_right g.selWidth g.granuleBytes_pos
  have := g.selWidth_mul_granuleBytes
  have := g.busBytes_le
  omega

/-- The granules of a line are those of its words. -/
theorem lineBytes_div_granuleBytes (g : Geometry) :
    g.lineBytes / g.granuleBytes = g.wordsPerLine * g.selWidth := by
  rw [g.lineBytes_eq, ← g.selWidth_mul_granuleBytes, ← Nat.mul_assoc, Nat.mul_div_cancel _ g.granuleBytes_pos]

/-- A line has no more granules than a word has bits. -/
theorem wordsPerLine_mul_selWidth_le (g : Geometry) : g.wordsPerLine * g.selWidth ≤ 64 := by
  rw [← g.lineBytes_div_granuleBytes]
  exact Nat.le_trans (Nat.div_le_self ..) g.lineBytes_le

/-- The lines make up the cache. -/
theorem lines_mul_lineBytes (g : Geometry) : g.lines * g.lineBytes = g.sizeBytes := by
  have h := g.sizeBytes_eq
  rw [g.backingWidth_eq_lineBytes, Nat.mul_left_comm] at h
  omega

theorem lines_pos (g : Geometry) : 0 < g.lines := by
  rw [g.lines_eq]
  exact Nat.two_pow_pos _

theorem wordsPerLine_pos (g : Geometry) : 0 < g.wordsPerLine := by
  rw [g.wordsPerLine_eq]
  exact Nat.two_pow_pos _

/-- Every address has a line of the cache. -/
theorem split_line_lt (g : Geometry) (addr : Nat) : (g.layout.split addr).line < g.lines :=
  g.lines_eq ▸ g.layout.split_line_lt addr

/-- Every address has a word of a line. -/
theorem split_offset_lt (g : Geometry) (addr : Nat) :
    (g.layout.split addr).offset < g.wordsPerLine :=
  g.wordsPerLine_eq ▸ g.layout.split_offset_lt addr

end Geometry

end WriteBack
