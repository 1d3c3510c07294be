/-!
# WriteBack.Config

What a user may choose about a cache and the store behind it. Each field has the width of its type and a
default, one of the baseline values; whether the choices fit together is decided by `Geometry.ofConfig`.
-/

namespace WriteBack

/-- Which latency model the simulated store follows. -/
inductive Controller where
  /-- Every operation takes the same time. -/
  | simple
  /-- One row stays open, and accesses to it are faster. -/
  | dram
deriving DecidableEq, Repr

namespace Config

/-! ## Baseline values -/

namespace Baseline

/-- Long enough for a write-back and a refill on the slowest baseline store. -/
def timeoutCycles : UInt64 := 256

def maxCycles : UInt64 := 50000000

/-- Four KiB. -/
def cacheSize : UInt64 := 4096

def dataWidth : UInt32 := 32

/-- Byte selects. -/
def granularity : UInt32 := 8

def backingAddrWidth : UInt32 := 23

def backingDataWidth : UInt32 := 128

def latency : UInt64 := 4

def tCas : UInt64 := 14

def tRas : UInt64 := 14

def tPre : UInt64 := 14

/-- Rows of 128 blocks. -/
def rowBits : UInt32 := 7

end Baseline

/-! ## Sections -/

/-- Limits and switches of a simulation run. -/
structure General where
  /-- Report every cycle while running. -/
  trace : Bool := false
  /-- How many cycles a beat may wait for its acknowledgement. -/
  timeoutCycles : UInt64 := Baseline.timeoutCycles
  /-- How many cycles a run may take. -/
  maxCycles : UInt64 := Baseline.maxCycles
deriving DecidableEq, Repr

/-- The requested cache. -/
structure Cache where
  /-- In bytes. -/
  sizeBytes : UInt64 := Baseline.cacheSize
  /-- The width of a bus word, in bits. -/
  dataWidth : UInt32 := Baseline.dataWidth
  /-- The bits that one select bit covers. -/
  granularity : UInt32 := Baseline.granularity
  /-- Every line starts out dirty. -/
  dirtyInit : Bool := false
deriving DecidableEq, Repr

/-- The requested backing store: its link and its timing. -/
structure Backing where
  /-- The width of a block address, in bits. -/
  addrWidth : UInt32 := Baseline.backingAddrWidth
  /-- The width of a block, in bits. -/
  dataWidth : UInt32 := Baseline.backingDataWidth
  controller : Controller := .simple
  /-- The latency of a simple store, in cycles. -/
  latency : UInt64 := Baseline.latency
  /-- Cycles from an open row to its data. -/
  tCas : UInt64 := Baseline.tCas
  /-- Cycles to open a row. -/
  tRas : UInt64 := Baseline.tRas
  /-- Cycles to close a row. -/
  tPre : UInt64 := Baseline.tPre
  /-- Block-address bits below the row number. -/
  rowBits : UInt32 := Baseline.rowBits
deriving DecidableEq, Repr

end Config

/-- A whole configuration. -/
structure Config where
  general : Config.General := {}
  cache : Config.Cache := {}
  backing : Config.Backing := {}
deriving DecidableEq, Repr

end WriteBack
