/-!
# WriteBack.Geometry.Error

The reasons why a cache geometry is refused. A cache is only ever built from a geometry that passed
every check, so each reason names the request that failed and the numbers that made it fail.
-/

namespace WriteBack

/-- A derived count that has to be a power of two. -/
inductive Quantity where
  | wordsPerLine
  | lineCount
deriving DecidableEq, Repr

/-- How a message names the count. -/
def Quantity.text : Quantity → String
  | .wordsPerLine => "bus words per line"
  | .lineCount => "line count"

/-- Why a cache geometry is refused. Sizes are in bytes, widths in bits. -/
inductive GeometryError where
  /-- The cache size is zero or no power of two. -/
  | invalidCacheSize (bytes : Nat)
  /-- The bus width is zero, no power of two, or wider than a 64-bit word. -/
  | invalidDataWidth (bits : Nat)
  /-- The granularity is no power of two between 8 and the bus width. -/
  | invalidGranularity (granularity dataWidth : Nat)
  /-- The line is no whole number of bus words. -/
  | invalidRatio (backing dataWidth : Nat)
  /-- The line width is no power of two, or exceeds 512 bits. -/
  | invalidBackingWidth (bits : Nat)
  /-- The cache cannot hold a single line. -/
  | cacheTooSmall (bytes lineBits : Nat)
  /-- The number of bits of the cache does not fit a 64-bit word. -/
  | cacheTooLarge (bytes : Nat)
  /-- A derived count is no power of two. -/
  | notPowerOfTwo (what : Quantity) (value : Nat)
  /-- A bus address does not fit a 64-bit word. -/
  | addressTooWide (bits : Nat)
  /-- A bus address cannot hold the offset and line fields. -/
  | addressTooNarrow (addrWidth offsetBits lineBits : Nat)
deriving DecidableEq, Repr

/-- The wording of a refusal. -/
def GeometryError.message : GeometryError → String
  | .invalidCacheSize n => s!"Cache size must be a positive power of two integer, not {n}"
  | .invalidDataWidth n => s!"Data width must be a positive power of two integer, not {n}"
  | .invalidGranularity g w =>
    s!"Granularity must be a power of two between 8 and the data width ({w}), not {g}"
  | .invalidRatio b w =>
    s!"Backing-store data width must be a multiple of data width, but {b} is not a multiple of {w}"
  | .invalidBackingWidth n =>
    s!"Backing-store data width must be a power of two of at most 512 bits, not {n}"
  | .cacheTooSmall n w => s!"Cache size of {n} bytes cannot hold one {w}-bit line"
  | .cacheTooLarge n => s!"Cache size of {n} bytes is too large to model"
  | .notPowerOfTwo what n => s!"{what.text} must be a power of two, not {n}"
  | .addressTooWide n => s!"Address width must be at most 64 bits, not {n}"
  | .addressTooNarrow w o l => s!"Address width {w} cannot hold {o} offset bits and {l} line bits"

end WriteBack
