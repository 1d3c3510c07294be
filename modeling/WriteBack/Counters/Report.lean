import WriteBack.Counters
import WriteBack.Decimal

/-!
# WriteBack.Counters.Report

The counters as lines of text, in three sections. What a run took on the host is reported only where it is
known.
-/

namespace WriteBack.Counters

/-- A section of the report. -/
inductive Section where
  | summary
  | accesses
  | backing
deriving DecidableEq, Repr

/-- The name by which a section is asked for. -/
def Section.name : Section → String
  | .summary => "summary"
  | .accesses => "accesses"
  | .backing => "backing"

/-- A line across the report. -/
def rule (c : Char) : String := String.ofList (List.replicate 58 c)

/-- Figures are in a column of their own. -/
def entry (label figure : String) : String :=
  label ++ String.ofList (List.replicate (25 - label.length) ' ') ++ figure

/-- The quotient of two counts in percent, with two places. -/
def percent (ratio : Float) : String := Decimal.ofFloat 2 (ratio * 100) ++ "%"

variable (n : Counters)

/-- Cycles to divide by. -/
def cycleBase : Nat := max n.cycles 1

/-- The time that a run took on the host, in nanoseconds, as two lines. -/
def hostLines (nanoseconds : Nat) : List String × List String :=
  ([entry "host_seconds" (Decimal.fixed 4 ⟨nanoseconds, 10 ^ 9⟩ ++ " s")],
    [entry "sim_freq" (Decimal.fixed 2 ⟨n.cycles * 10 ^ 6, max nanoseconds 1⟩ ++ " kHz")])

/-- Cycles and acknowledgements. -/
def summaryLines (host : Option Nat) : List String :=
  let (seconds, frequency) := (host.map n.hostLines).getD ([], [])
  ["", rule '=', "WRITE-BACK CACHE SIMULATION STATISTICS", rule '='] ++ seconds ++
    [entry "sim_cycles" (toString n.cycles)] ++ frequency ++
    [entry "bus.acks" (toString n.acks),
      entry "bus.acks_per_cycle" (Decimal.ofFloat 4 (ratio n.acks n.cycleBase)),
      rule '-']

/-- What became of the beats. -/
def accessLines : List String :=
  ["ACCESSES",
    entry "  read.hits" (toString n.readHits),
    entry "  read.retries" (toString n.readRetries),
    entry "  write.hits" (toString n.writeHits),
    entry "  write.retries" (toString n.writeRetries),
    entry "  misses" (toString n.misses),
    entry "  hit_rate" (percent n.hitRate),
    entry "  rereads" (toString n.rereads),
    rule '-']

/-- The traffic behind the cache. -/
def backingLines : List String :=
  ["BACKING STORE",
    entry "  evictions" (toString n.evictions),
    entry "  refills" (toString n.refills),
    entry "  bytes.written" (toString n.bytesWritten),
    entry "  bytes.read" (toString n.bytesRead),
    entry "  stalls" s!"{n.stallCycles} ({percent (ratio n.stallCycles n.cycleBase)})"]

/-- The report with the sections of the given names, or with all of them if no name is given; a name of no
section adds nothing. -/
def report (host : Option Nat) (names : List String) : List String :=
  let want (s : Section) := names.isEmpty || names.contains s.name
  (if want .summary then n.summaryLines host else []) ++
    (if want .accesses then n.accessLines else []) ++
    (if want .backing then n.backingLines else []) ++
    [rule '=']

end WriteBack.Counters
