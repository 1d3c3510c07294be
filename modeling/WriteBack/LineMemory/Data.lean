import WriteBack.Bits
import WriteBack.Block
import WriteBack.LineMemory

/-!
# WriteBack.LineMemory.Data

The memory of line contents: one block per line, written under a mask with one bit per granule.
-/

namespace WriteBack

/-- A write of some granules of a line. -/
structure DataWrite where
  line : Nat
  /-- A whole block; only its enabled granules count. -/
  data : Block
  /-- One bit per granule. -/
  mask : Nat
deriving DecidableEq, Repr

/-- The memory of line contents. -/
structure DataMemory extends LineMemory Block where
  /-- The bytes that one mask bit covers. -/
  granuleBytes : Nat
deriving DecidableEq, Repr

namespace DataMemory

/-- A memory of zero blocks. -/
def zeros (lines lineBytes granuleBytes : Nat) : DataMemory :=
  { toLineMemory := .replicate lines (Block.zeros lineBytes), granuleBytes }

/-- The change that a write makes to its line, with the given bytes for each mask bit. -/
def lineChange (granuleBytes : Nat) (w : DataWrite) : Nat × (Block → Block) :=
  (w.line, Block.merge granuleBytes w.mask w.data)

variable (m : DataMemory)

/-- One clock edge. -/
def clock (read : Option Nat) (write : Option DataWrite) : DataMemory :=
  let write := write.map (lineChange m.granuleBytes)
  { m with toLineMemory := m.toLineMemory.clock read write }

/-- The write names a line, and its data covers every granule that it enables. -/
def Accepts (w : DataWrite) : Prop :=
  m.granuleBytes ≠ 0 ∧ ∀ old ∈ m.peek? w.line, Block.Covers m.granuleBytes w.mask w.data old

instance (w : DataWrite) : Decidable (m.Accepts w) :=
  inferInstanceAs (Decidable (_ ∧ _))

/-- One clock edge, refused when a read or a write names a line that does not exist, when a mask bit covers no
byte, or when the data of an enabled granule is missing. -/
def clock? (read : Option Nat) (write : Option DataWrite) : Option DataMemory :=
  if m.InRange read (write.map (lineChange m.granuleBytes)) ∧ ∀ w ∈ write, m.Accepts w then
    some (m.clock read write)
  else none

/-- Every granule of a line enabled. -/
def fullMask : Nat := lowMask (m.out.length / m.granuleBytes)

/-- Every granule of a line enabled; refused when a mask bit covers no byte. -/
def fullMask? : Option Nat := if m.granuleBytes = 0 then none else some m.fullMask

@[simp] theorem size_clock (read : Option Nat) (write : Option DataWrite) :
    (m.clock read write).size = m.size :=
  LineMemory.size_clock ..

@[simp] theorem granuleBytes_clock (read : Option Nat) (write : Option DataWrite) :
    (m.clock read write).granuleBytes = m.granuleBytes := rfl

end DataMemory

end WriteBack
