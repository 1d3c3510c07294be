import WriteBack.Link

/-!
# WriteBack.Link.Monitor

A checker that watches the link. An operation is one command and one data beat, in either order. While it is
in progress no channel may be offered again after its transfer; a read beat belongs to a command with
`we = false`, a write beat to one with `we = true`, and never both to one operation. Every completed
operation goes into a log.
-/

namespace WriteBack.Link

/-- Which rule of the link is broken. -/
inductive Breach where
  /-- A command is offered although the operation in progress has one. -/
  | overlappingCommand
  /-- Write data is offered although the operation in progress has a write beat. -/
  | duplicateWrite
  /-- The read channel is ready although the operation in progress has a read beat. -/
  | duplicateRead
  /-- A beat of the wrong direction completed under a command with this `we`. -/
  | mismatchedBeat (we : Bool)
  /-- A read and a write beat completed within one operation. -/
  | mixedOperation
deriving DecidableEq, Repr

/-- A broken rule and the cycle in which it was. -/
structure Violation where
  cycle : Nat
  breach : Breach
deriving DecidableEq, Repr

/-- The wording of a broken rule. -/
def Breach.text : Breach → String
  | .overlappingCommand => "command offered while the previous operation is incomplete"
  | .duplicateWrite => "write data offered after the write beat completed"
  | .duplicateRead => "read channel ready after the read beat completed"
  | .mismatchedBeat true => "read beat completed under a command with we=true"
  | .mismatchedBeat false => "write beat completed under a command with we=false"
  | .mixedOperation => "read and write beats completed within one operation"

/-- The wording of a violation. -/
def Violation.message (v : Violation) : String := s!"cycle {v.cycle}: {v.breach.text}"

/-- A completed operation. -/
structure Operation where
  /-- The cycle whose edge completed it. -/
  cycle : Nat
  addr : Nat
  we : Bool
  last : Bool
  /-- The data written or read. -/
  data : Block
  /-- The byte enable of a write; zero for a read. -/
  byteEnable : Nat
deriving DecidableEq, Repr

/-- What the monitor knows: the transfers of the operation in progress and the completed ones. -/
structure Monitor where
  /-- The number of cycles observed. -/
  cycle : Nat := 0
  command : Option Command := none
  write : Option WriteBeat := none
  read : Option Block := none
  /-- Completed operations, oldest first. -/
  log : Array Operation := #[]
deriving DecidableEq, Repr

namespace Monitor

/-- The rule that an offer breaks. -/
def offerBreach (m : Monitor) (request : Request) : Option Breach :=
  if request.command.isSome && m.command.isSome then some .overlappingCommand
  else if request.write.isSome && m.write.isSome then some .duplicateWrite
  else if request.readReady && m.read.isSome then some .duplicateRead
  else none

/-- The transfers of an edge join the operation in progress. -/
def capture (m : Monitor) (t : Transfers) : Monitor :=
  { m with
    command := t.command <|> m.command
    write := t.write <|> m.write
    read := t.read <|> m.read }

/-- The rule that the captured transfers break. -/
def beatBreach (m : Monitor) : Option Breach :=
  if m.read.isSome && m.write.isSome then some .mixedOperation
  else match m.command with
    | none => none
    | some c =>
      if c.we && m.read.isSome then some (.mismatchedBeat true)
      else if !c.we && m.write.isSome then some (.mismatchedBeat false)
      else none

/-- The operation in progress, when both its command and its beat are there. -/
def finished (m : Monitor) : Option Operation :=
  m.command.bind fun c =>
    if c.we then m.write.map fun w => ⟨m.cycle, c.addr, true, c.last, w.data, w.byteEnable⟩
    else m.read.map fun data => ⟨m.cycle, c.addr, false, c.last, data, 0⟩

/-- Moves a completed operation into the log. -/
def retire (m : Monitor) : Monitor :=
  match m.finished with
  | none => m
  | some op => { m with command := none, write := none, read := none, log := m.log.push op }

/-- Goes on to the next cycle. -/
def advance (m : Monitor) : Monitor := { m with cycle := m.cycle + 1 }

/-- Checks one cycle, given the offers in it and the transfers on its edge. Offers are checked first, and an
edge with a bad offer is not captured. -/
def observe (m : Monitor) (request : Request) (t : Transfers) : Option Violation × Monitor :=
  match m.offerBreach request with
  | some breach => (some ⟨m.cycle, breach⟩, m.advance)
  | none =>
    let captured := m.capture t
    match captured.beatBreach with
    | some breach => (some ⟨m.cycle, breach⟩, captured.advance)
    | none => (none, captured.retire.advance)

/-- An operation is in progress. -/
def isBusy (m : Monitor) : Bool := m.command.isSome || m.write.isSome || m.read.isSome

/-- The completed writes, oldest first. -/
def writes (m : Monitor) : Array Operation := m.log.filter (·.we)

/-- The completed reads, oldest first. -/
def reads (m : Monitor) : Array Operation := m.log.filter (!·.we)

/-- Every observed cycle is counted, whatever the verdict. -/
@[simp] theorem cycle_observe (m : Monitor) (request : Request) (t : Transfers) :
    (m.observe request t).2.cycle = m.cycle + 1 := by
  unfold observe
  split
  · rfl
  · dsimp only
    split
    · rfl
    · simp only [advance, retire, capture]
      split <;> rfl

end Monitor

end WriteBack.Link
