import WriteBack.Counters.Report
import WriteBack.Geometry
import WriteBack.Json.Printer
import WriteBack.Simulator.Error
import WriteBack.Workload

/-!
# WriteBack.CommandLine.Report

What the program prints: the outcome of a run and the geometry of a configuration, each as text or as JSON.
-/

namespace WriteBack.CommandLine

/-- A JSON value as lines of text. -/
def jsonLines (v : Json) : List String := (String.ofList (v.pretty 0)).splitOn "\n"

/-- The counters as JSON, in the order of their declaration. -/
def countersJson (n : Counters) : Json :=
  .ofMembers [
    ("cycles", .ofNat n.cycles),
    ("read_hits", .ofNat n.readHits),
    ("write_hits", .ofNat n.writeHits),
    ("read_retries", .ofNat n.readRetries),
    ("write_retries", .ofNat n.writeRetries),
    ("misses", .ofNat n.misses),
    ("evictions", .ofNat n.evictions),
    ("refills", .ofNat n.refills),
    ("stall_cycles", .ofNat n.stallCycles),
    ("rereads", .ofNat n.rereads),
    ("bytes_written", .ofNat n.bytesWritten),
    ("bytes_read", .ofNat n.bytesRead)]

/-- What a completed run is reported by. -/
structure RunOutcome where
  workload : Workload
  transactions : Nat
  seed : UInt64
  cycles : Nat
  /-- Completed reads of the backing store. -/
  backingReads : Nat
  /-- Completed writes of the backing store. -/
  backingWrites : Nat
  counters : Counters
deriving DecidableEq, Repr

namespace RunOutcome

variable (r : RunOutcome)

/-- The outcome as JSON. -/
def toJson : Json :=
  .ofMembers [
    ("workload", .ofString r.workload.name),
    ("transactions", .ofNat r.transactions),
    ("seed", .ofNat r.seed.toNat),
    ("cycles", .ofNat r.cycles),
    ("backing_reads", .ofNat r.backingReads),
    ("backing_writes", .ofNat r.backingWrites),
    ("stats", countersJson r.counters)]

/-- The outcome as text, with the sections of the given names. -/
def textLines (host : Option Nat) (sections : List String) : List String :=
  s!"[*] {r.workload.name} workload: {r.transactions} transactions, seed {r.seed}, {r.cycles} cycles"
    :: r.counters.report host sections

end RunOutcome

/-- A geometry as JSON. -/
def geometryJson (g : Geometry) : Json :=
  .ofMembers [
    ("size_bytes", .ofNat g.sizeBytes),
    ("data_width", .ofNat g.dataWidth),
    ("granularity", .ofNat g.granularity),
    ("backing_data_width", .ofNat g.backingWidth),
    ("ratio", .ofNat g.wordsPerLine),
    ("lines", .ofNat g.lines),
    ("addr_width", .ofNat g.layout.addrWidth),
    ("offset_bits", .ofNat g.layout.offsetBits),
    ("line_bits", .ofNat g.layout.lineBits),
    ("tag_bits", .ofNat g.layout.tagBits),
    ("dirty_init", .bool g.dirtyInit),
    ("constant_map", .ofMembers [("size", .ofNat g.memoryBytes), ("cache_size", .ofNat g.sizeBytes)])]

/-- A geometry as text. -/
def geometryLines (g : Geometry) : List String :=
  let entry := Counters.entry
  [entry "cache.size" s!"{g.sizeBytes} B",
    entry "cache.lines" s!"{g.lines}",
    entry "cache.dirty_init" s!"{g.dirtyInit}",
    entry "bus.data_width" s!"{g.dataWidth} bits",
    entry "bus.granularity" s!"{g.granularity} bits",
    entry "bus.addr_width" s!"{g.layout.addrWidth} bits",
    entry "backing.data_width" s!"{g.backingWidth} bits",
    entry "words_per_line" s!"{g.wordsPerLine}",
    entry "addr.fields"
      s!"tag[{g.layout.tagBits}] line[{g.layout.lineBits}] offset[{g.layout.offsetBits}]",
    entry "constant.size" (hex g.memoryBytes),
    entry "constant.cache_size" (hex g.sizeBytes)]

end WriteBack.CommandLine
