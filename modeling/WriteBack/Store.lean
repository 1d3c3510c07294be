import Std.Data.TreeMap
import WriteBack.Bits
import WriteBack.Link
import WriteBack.Store.Latency

/-!
# WriteBack.Store

A block memory behind the link. It takes one command at a time; when the latency of the command has passed
it takes the write beat or offers the read beat, and then it is ready for the next command. A block that was
never written reads as zeros, and addresses count modulo the address width.
-/

namespace WriteBack

open Link

/-- An accepted command that waits for its beat. -/
structure Pending where
  command : Command
  /-- Cycles before the beat is possible. -/
  wait : Nat
deriving DecidableEq, Repr

/-- A sparse memory of blocks, timed by a latency model. -/
structure MemoryStore (L : Type) where
  /-- The size of a block. -/
  lineBytes : Nat
  /-- The width of a block address, in bits. -/
  addrWidth : Nat
  /-- The blocks written so far. -/
  blocks : Std.TreeMap Nat Block := {}
  latency : L
  pending : Option Pending := none
  /-- Read operations served. -/
  reads : Nat := 0
  /-- Write operations served. -/
  writes : Nat := 0

namespace MemoryStore

/-- The empty store of a configuration. -/
def ofConfig (backing : Config.Backing) : MemoryStore Timing where
  lineBytes := backing.dataWidth.toNat / 8
  addrWidth := backing.addrWidth.toNat
  latency := .ofConfig backing

variable {L : Type} (s : MemoryStore L)

/-- The address under which a block is kept. -/
def key (addr : Nat) : Nat := lowBits s.addrWidth addr

/-- The contents of a block. -/
def readBlock (addr : Nat) : Block := s.blocks.getD (s.key addr) (Block.zeros s.lineBytes)

/-- Takes the enabled bytes of `data` into a block. -/
def writeBlock (addr : Nat) (data : Block) (byteEnable : Nat) : MemoryStore L :=
  { s with blocks := s.blocks.insert (s.key addr) (Block.merge 1 byteEnable data (s.readBlock addr)) }

/-- The number in `n` bytes of a block from position `start` on, or its low 64 bits; refused when the block
ends before them. -/
def readWord? (addr start n : Nat) : Option Nat :=
  let block := s.readBlock addr
  if start + n ≤ block.length then some (Block.toNat (Block.slice start n block) % 2 ^ 64) else none

/-- What the store drives: ready for a command, waiting, or serving the beat of the command. -/
def respond : Response :=
  match s.pending with
  | none => { commandReady := true }
  | some ⟨command, 0⟩ =>
    if command.we then { writeReady := true } else { read := some (s.readBlock command.addr) }
  | some _ => {}

/-! ## One edge: count down, serve the beats, take a command -/

/-- A cycle of the wait passes. -/
def countDown : MemoryStore L :=
  { s with pending := s.pending.map fun p => { p with wait := p.wait - 1 } }

/-- The write beat of the pending command. -/
def takeWrite (beat : WriteBeat) : MemoryStore L :=
  match s.pending with
  | none => s
  | some p =>
    { s.writeBlock p.command.addr beat.data beat.byteEnable with
      pending := none, writes := s.writes + 1 }

/-- The read beat was taken. -/
def finishRead : MemoryStore L := { s with pending := none, reads := s.reads + 1 }

/-- The next command. -/
def takeCommand [LatencyModel L] (command : Command) : MemoryStore L :=
  let (wait, latency) := LatencyModel.access s.latency (s.key command.addr)
  { s with pending := some ⟨command, wait⟩, latency }

/-- One clock edge. -/
def clock [LatencyModel L] (t : Transfers) : MemoryStore L :=
  let s := s.countDown
  let s := match t.write with
    | none => s
    | some beat => s.takeWrite beat
  let s := match t.read with
    | none => s
    | some _ => s.finishRead
  match t.command with
  | none => s
  | some command => s.takeCommand command

instance [LatencyModel L] : BackingStore (MemoryStore L) where
  respond := respond
  clock s t := s.clock t

/-- Another block keeps its contents when a block is written. -/
theorem readBlock_writeBlock (addr a : Nat) (data : Block) (byteEnable : Nat) :
    (s.writeBlock addr data byteEnable).readBlock a =
      if s.key addr = s.key a then Block.merge 1 byteEnable data (s.readBlock addr)
      else s.readBlock a := by
  by_cases h : s.key addr = s.key a <;>
    simp_all [writeBlock, readBlock, key, Std.TreeMap.getD_insert]

end MemoryStore

end WriteBack
