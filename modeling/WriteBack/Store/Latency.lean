import WriteBack.Bits
import WriteBack.Config

/-!
# WriteBack.Store.Latency

How long the backing store takes from a command to its data beat. A model may remember earlier accesses:
a store with a row buffer is fast on the row that it has open. Times are 64-bit words, and a row buffer adds them
as such.
-/

namespace WriteBack

/-- A latency model: the cycles that an access to a block takes, and the model after it. -/
class LatencyModel (L : Type) where
  access : L → (addr : Nat) → Nat × L

/-- A store with one row buffer. -/
structure RowBuffer where
  /-- The row in the buffer. -/
  openRow : Option Nat := none
  /-- Cycles from an open row to its data. -/
  tCas : Nat
  /-- Cycles to open a row. -/
  tRas : Nat
  /-- Cycles to close a row. -/
  tPre : Nat
  /-- Block-address bits below the row number. -/
  rowBits : Nat
deriving DecidableEq, Repr

namespace RowBuffer

/-- The row buffer with these times, before any row is open. -/
def ofTimes (tCas tRas tPre : UInt64) (rowBits : Nat) : RowBuffer where
  tCas := tCas.toNat
  tRas := tRas.toNat
  tPre := tPre.toNat
  rowBits := rowBits

/-- The row that holds a block. -/
def row (b : RowBuffer) (addr : Nat) : Nat := addr >>> b.rowBits

/-- The time of an access: the open row only has to deliver its data, another one has to be opened, and
before that the open one closed. -/
def latency (b : RowBuffer) (addr : Nat) : Nat :=
  match b.openRow with
  | none => Word.add b.tRas b.tCas
  | some r => if r = b.row addr then b.tCas else Word.add (Word.add b.tPre b.tRas) b.tCas

/-- The row of an accessed block stays open. -/
def access (b : RowBuffer) (addr : Nat) : Nat × RowBuffer :=
  (b.latency addr, { b with openRow := some (b.row addr) })

end RowBuffer

/-- The latency models of a configuration. -/
inductive Timing where
  /-- Every access takes the same time. -/
  | fixed (cycles : Nat)
  | rowBuffer (buffer : RowBuffer)
deriving DecidableEq, Repr

namespace Timing

/-- The model that a configuration selects. -/
def ofConfig (backing : Config.Backing) : Timing :=
  match backing.controller with
  | .simple => .fixed backing.latency.toNat
  | .dram => .rowBuffer (.ofTimes backing.tCas backing.tRas backing.tPre backing.rowBits.toNat)

/-- The time of an access, and the model after it. -/
def access : Timing → Nat → Nat × Timing
  | .fixed n, _ => (n, .fixed n)
  | .rowBuffer b, addr => let (n, b) := b.access addr; (n, .rowBuffer b)

instance : LatencyModel Timing := ⟨access⟩

end Timing

end WriteBack
