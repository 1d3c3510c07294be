import WriteBack.Block

/-!
# WriteBack.Link

The link between the cache and its backing store: a command, a write and a read channel. On each channel one
side is valid and the other ready, and a transfer happens in a cycle where both are. A valid payload is
`some` value. A store answers from its own state alone, without looking at the request of the same cycle.
-/

namespace WriteBack.Link

/-- The payload of the command channel. -/
structure Command where
  /-- The block address. -/
  addr : Nat
  /-- The operation writes. -/
  we : Bool
  /-- No further command belongs to this operation. -/
  last : Bool
deriving DecidableEq, Repr

/-- The payload of the write channel. -/
structure WriteBeat where
  data : Block
  /-- One bit per byte of the data. -/
  byteEnable : Nat
deriving DecidableEq, Repr

/-- What the cache drives. -/
structure Request where
  command : Option Command := none
  write : Option WriteBeat := none
  /-- The cache takes a read beat. -/
  readReady : Bool := false
deriving DecidableEq, Repr

/-- What the store drives. -/
structure Response where
  /-- The store takes a command. -/
  commandReady : Bool := false
  /-- The store takes a write beat. -/
  writeReady : Bool := false
  read : Option Block := none
deriving DecidableEq, Repr

/-- What went across on one clock edge. -/
structure Transfers where
  command : Option Command := none
  write : Option WriteBeat := none
  read : Option Block := none
deriving DecidableEq, Repr

namespace Transfers

/-- A channel transfers when it is valid and ready. -/
def resolve (request : Request) (response : Response) : Transfers where
  command := if response.commandReady then request.command else none
  write := if response.writeReady then request.write else none
  read := if request.readReady then response.read else none

/-- Nothing went across. -/
def isEmpty (t : Transfers) : Bool := t.command.isNone && t.write.isNone && t.read.isNone

end Transfers

/-- A store behind the link. -/
class BackingStore (S : Type) where
  /-- What the store drives in the current cycle. -/
  respond : S → Response
  /-- The store after an edge on which these transfers completed. -/
  clock : S → Transfers → S

end WriteBack.Link
