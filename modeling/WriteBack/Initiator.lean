import WriteBack.Simulator
import WriteBack.Transaction

/-!
# WriteBack.Initiator

A bus master that drives one transaction at a time. It holds every beat until the cache acknowledges it,
lets the bus idle for one cycle after each transaction, and gives up on a beat that is not acknowledged
within its timeout.
-/

namespace WriteBack

/-- A bus master in front of a cache of the given geometry. -/
structure Initiator where
  geometry : Geometry
  /-- The cycles that a beat may wait for its acknowledgement. -/
  timeout : Nat
deriving DecidableEq, Repr

namespace Initiator

variable (i : Initiator)

/-! ## The beats of a transaction -/

/-- The word as the bus carries it. -/
def busWord (data : Nat) : Nat := data % 2 ^ i.geometry.dataWidth

/-- The beats of a read burst. -/
def readBeats (start : Nat) (kind : BurstKind) (beats : Nat) : List Bus.Request :=
  List.zipWith (fun adr cti => (Bus.Request.read adr i.geometry.fullSel).withBurst cti kind)
    (kind.addresses i.geometry.layout.addrMask start beats) (CycleType.ofBeats beats)

/-- The beats of a write burst. -/
def writeBeats (start : Nat) (kind : BurstKind) (data : List Nat) : List Bus.Request :=
  List.zipWith (fun (adr, cti) word =>
      (Bus.Request.write adr (i.busWord word) i.geometry.fullSel).withBurst cti kind)
    ((kind.addresses i.geometry.layout.addrMask start data.length).zip
      (CycleType.ofBeats data.length)) data

/-! ## Driving them -/

variable {S : Type} [Link.BackingStore S]

/-- Presents a request for up to `tries` cycles, until it is acknowledged. -/
def hold (request : Bus.Request) : (tries : Nat) → Run S Nat
  | 0 => throw (.timeout request.adr i.timeout)
  | tries + 1 => do
    let response ← Simulator.tick request
    if response.ack then return response.datR else hold request tries

/-- Drives one beat: it may wait for the timeout after its first cycle. -/
def beat (request : Bus.Request) : Run S Nat := i.hold request (i.timeout + 1)

/-- Reads one word. -/
def read (adr : Nat) : Run S Nat := do
  let word ← i.beat (.read (i.geometry.layout.clip adr) i.geometry.fullSel)
  Simulator.idle 1
  return word

/-- Writes the granules of `data` in `sel`. -/
def write (adr data sel : Nat) : Run S Unit := do
  let _ ← i.beat (.write (i.geometry.layout.clip adr) (i.busWord data) sel)
  Simulator.idle 1

/-- Reads the words of a burst. A burst without beats does not touch the bus. -/
def burstRead (start : Nat) (kind : BurstKind) (beats : Nat) : Run S (List Nat) := do
  let words ← (i.readBeats start kind beats).mapM i.beat
  if 0 < beats then Simulator.idle 1
  return words

/-- Writes the words of a burst. A burst without beats does not touch the bus. -/
def burstWrite (start : Nat) (kind : BurstKind) (data : List Nat) : Run S Unit := do
  let _ ← (i.writeBeats start kind data).mapM i.beat
  if !data.isEmpty then Simulator.idle 1

/-- Drives a transaction and returns the words it read. -/
def execute : Transaction → Run S (List Nat)
  | .read adr => do return [← i.read adr]
  | .write adr data sel => do
    i.write adr data sel
    return []
  | .burstRead adr kind beats => i.burstRead adr kind beats
  | .burstWrite adr kind data => do
    i.burstWrite adr kind data
    return []

end Initiator

end WriteBack
