/-!
# WriteBack.Counters

What a cache counts while it runs, and the figures derived from the counts.
-/

namespace WriteBack

/-- The activity of a cache since it was built. A beat counts as a hit when no miss preceded its
acknowledgement, and as a retry otherwise. -/
structure Counters where
  /-- Clock edges. -/
  cycles : Nat := 0
  readHits : Nat := 0
  writeHits : Nat := 0
  readRetries : Nat := 0
  writeRetries : Nat := 0
  /-- Lookups that found another block in the line. -/
  misses : Nat := 0
  /-- Lines written back. -/
  evictions : Nat := 0
  /-- Lines fetched. -/
  refills : Nat := 0
  /-- Cycles spent on an eviction or a refill. -/
  stallCycles : Nat := 0
  /-- Cycles in which a lookup had to read its line again. -/
  rereads : Nat := 0
  bytesWritten : Nat := 0
  bytesRead : Nat := 0
deriving DecidableEq, Repr

namespace Counters

variable (n : Counters)

/-- Acknowledged beats. -/
def acks : Nat := n.readHits + n.writeHits + n.readRetries + n.writeRetries

/-- Beats acknowledged without a miss. -/
def hits : Nat := n.readHits + n.writeHits

/-- Lookups that were decided. -/
def lookups : Nat := n.hits + n.misses

/-- The quotient of two counts. -/
def ratio (a b : Nat) : Float := Float.ofNat a / Float.ofNat b

/-- The part of the lookups that hit; zero before any lookup. -/
def hitRate : Float := if n.lookups = 0 then 0 else ratio n.hits n.lookups

end Counters

end WriteBack
