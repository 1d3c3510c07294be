import WriteBack.Bus
import WriteBack.Counters
import WriteBack.Geometry
import WriteBack.LineMemory.Data
import WriteBack.Link

/-!
# WriteBack.Cache

The state of a direct-mapped write-back cache between the initiator bus and the link to its backing store.

The cache looks a request up by comparing the tag that its read register took in the cycle before. As the
register shows an older cycle, the cache remembers which line it holds and whether that line was written
since. A miss writes a dirty line back first and then fetches the requested block.
-/

namespace WriteBack

/-- Which handshakes of an eviction or a refill have completed. -/
structure Progress where
  /-- The command was taken. -/
  command : Bool := false
  /-- The data beat went across. -/
  beat : Bool := false
deriving DecidableEq, Repr

/-- Both handshakes have completed. -/
def Progress.isDone (p : Progress) : Bool := p.command && p.beat

namespace Cache

/-- What the cache is busy with. -/
inductive State where
  /-- Serving requests. -/
  | check
  /-- Writing a dirty line back. -/
  | evict (progress : Progress)
  /-- Fetching the requested block. -/
  | refill (progress : Progress)
deriving DecidableEq, Repr

/-- The cache waits on the backing store. -/
def State.isStalled : State → Bool
  | .check => false
  | .evict _ | .refill _ => true

/-- The part of the last request that the cache keeps. -/
structure Sampled where
  cyc : Bool := false
  stb : Bool := false
  adr : Nat := 0
deriving DecidableEq, Repr

/-- A beat was presented within a bus cycle. -/
def Sampled.isActive (s : Sampled) : Bool := s.cyc && s.stb

/-- What a cache line holds. -/
structure Line where
  tag : Nat
  dirty : Bool
  data : Block
deriving DecidableEq, Repr

/-- The signals that the cache drives in one cycle. -/
structure Outputs where
  bus : Bus.Response := {}
  link : Link.Request := {}
deriving DecidableEq, Repr

end Cache

/-- A cache: its registers, its two memories and its counters. -/
structure Cache where
  geometry : Geometry
  state : Cache.State := .check
  /-- The request at the last edge on which requests were served. -/
  sampled : Cache.Sampled := {}
  /-- The line that the read registers hold. -/
  loadedLine : Nat := 0
  /-- The loaded line was written after the read registers took it. -/
  stale : Bool := false
  /-- The next acknowledgement follows a miss. -/
  retrying : Bool := false
  tags : TagMemory
  data : DataMemory
  counters : Counters := {}
deriving DecidableEq, Repr

namespace Cache

/-- A cold cache. There is no valid bit: every line holds the block of the largest tag, with zero data. -/
def ofGeometry (g : Geometry) : Cache where
  geometry := g
  tags := .replicate g.lines ⟨g.layout.tagMask, g.dirtyInit⟩
  data := .zeros g.lines g.lineBytes g.granuleBytes

/-- A cold cache for a configuration, or the reason why there is none. -/
def ofConfig (cache : Config.Cache) (backing : Config.Backing) : Except GeometryError Cache :=
  (Geometry.ofConfig cache backing).map ofGeometry

/-- The contents of a line; there are none past the last line. -/
def line? (c : Cache) (i : Nat) : Option Line :=
  if i < c.geometry.lines then do
    let entry ← c.tags.peek? i
    let data ← c.data.peek? i
    return ⟨entry.tag, entry.dirty, data⟩
  else none

/-- The contents of the first `n` lines, or of all lines if there are fewer. -/
def firstLines (c : Cache) (n : Nat) : List Line :=
  (List.range (min n c.geometry.lines)).filterMap c.line?

end Cache

end WriteBack
