import WriteBack.Cache

/-!
# WriteBack.Cache.Step

One clock cycle of the cache. In a cycle the cache drives `busResponse` and `linkRequest`, and the edge that
closes the cycle takes it to `next`.

* In `check` it serves requests: `acks` and `misses` say what the comparison finds, `loads` whether the read
  registers take a line. An acknowledged beat of an incrementing burst loads the line of the beat after it.
* In `evict` it offers a write command and the whole line as the one beat, each until it is taken.
* In `refill` it offers a read command and takes the one beat, which installs a clean line.

The link request depends on registers alone, and so does everything else while the cache is stalled, apart
from the answer of the store.
-/

namespace WriteBack.Cache

open Link

variable (c : Cache)

/-! ## What the comparison finds -/

section Lookup

variable (bus : Bus.Request)

/-- The fields of the requested address. -/
def target : Address := c.geometry.layout.split bus.adr

/-- The loaded tag is the requested one. -/
def tagMatches : Bool := c.tags.out.tag == (c.target bus).tag

/-- The read registers hold the requested line. -/
def holdsTarget : Bool := c.loadedLine == (c.target bus).line

/-- The comparison may be acted on. A stale copy still serves a write to the loaded block, which needs
neither the data nor the dirty bit. -/
def usable : Bool := c.holdsTarget bus && (!c.stale || (bus.we && c.tagMatches bus))

/-- The request was presented in the cycle before as well. -/
def compares : Bool := bus.isActive && c.sampled.isActive

/-- The beat is acknowledged. -/
def acks : Bool := c.compares bus && c.usable bus && c.tagMatches bus

/-- The line holds another block. -/
def misses : Bool := c.compares bus && c.holdsTarget bus && !c.stale && !c.tagMatches bus

/-- The beat is an acknowledged write. -/
def writes : Bool := c.acks bus && bus.we

/-- The read registers take a line: for a new request, for the next beat of a burst, or once more. -/
def loads : Bool := bus.isActive && (!c.sampled.isActive || c.acks bus || !c.usable bus)

/-- The address of the beat after this one. -/
def nextBeat : Nat := bus.bte.next c.geometry.layout.addrMask bus.adr

/-- The line to load: the requested one, or that of the next beat of an acknowledged burst. -/
def loadLine : Nat :=
  if c.acks bus && bus.cti == .increment then (c.geometry.layout.split (c.nextBeat bus)).line
  else (c.target bus).line

/-- The line is read again although the request is not new. -/
def rereads : Bool := c.sampled.isActive && c.loads bus && !c.acks bus

/-- The write side of the tag memory: a written line becomes dirty. -/
def tagWrite : Option (Nat × (TagEntry → TagEntry)) :=
  if c.writes bus then some ((c.target bus).line, fun _ => ⟨(c.target bus).tag, true⟩) else none

/-- The granules of the line that a write selects: those of its bus word. -/
def writeMask : Nat :=
  (bus.sel % 2 ^ c.geometry.selWidth) <<< ((c.target bus).offset * c.geometry.selWidth)

/-- The write side of the data memory: the bus word is offered to every word of the line, and the mask
selects the one to change. -/
def dataWrite : Option DataWrite :=
  if c.writes bus then
    some {
      line := (c.target bus).line
      data := Block.fill c.geometry.busBytes c.geometry.wordsPerLine bus.datW
      mask := c.writeMask bus }
  else none

/-- The line that the cycle writes is `line`. -/
def writesLine (line : Nat) : Bool := c.writes bus && (c.target bus).line == line

end Lookup

/-! ## What the cache drives -/

/-- The bus side: a hit is acknowledged, with its word of the loaded line. -/
def busResponse (bus : Bus.Request) : Bus.Response :=
  match c.state with
  | .check =>
    if c.acks bus then ⟨true, Block.word c.geometry.busBytes (c.target bus).offset c.data.out⟩ else {}
  | .evict _ | .refill _ => {}

/-- The fields of the address that missed. -/
def missed : Address := c.geometry.layout.split c.sampled.adr

/-- The offer of an eviction: each channel until its transfer. -/
def evictRequest (p : Progress) : Request where
  command :=
    if p.command then none
    else some ⟨c.geometry.layout.blockAddr c.missed.line c.tags.out.tag, true, false⟩
  write := if p.beat then none else some ⟨c.data.out, c.geometry.fullByteEnable⟩

/-- The offer of a refill: each channel until its transfer. -/
def refillRequest (p : Progress) : Request where
  command :=
    if p.command then none
    else some ⟨c.geometry.layout.blockAddr c.missed.line c.missed.tag, false, true⟩
  readReady := !p.beat

/-- The link side. -/
def linkRequest : Request :=
  match c.state with
  | .check => {}
  | .evict p => c.evictRequest p
  | .refill p => c.refillRequest p

/-! ## The edge that closes the cycle -/

/-- The counters after a cycle that served requests. -/
def countCheck (bus : Bus.Request) : Counters :=
  let n := c.counters
  let ack := c.acks bus
  { n with
    cycles := n.cycles + 1
    readHits := n.readHits + (ack && !bus.we && !c.retrying).toNat
    writeHits := n.writeHits + (ack && bus.we && !c.retrying).toNat
    readRetries := n.readRetries + (ack && !bus.we && c.retrying).toNat
    writeRetries := n.writeRetries + (ack && bus.we && c.retrying).toNat
    misses := n.misses + (c.misses bus).toNat
    rereads := n.rereads + (c.rereads bus).toNat }

/-- Clocks both memories. -/
def clockMemories (read : Option Nat) (tagWrite : Option (Nat × (TagEntry → TagEntry)))
    (dataWrite : Option DataWrite) : Cache :=
  { c with tags := c.tags.clock read tagWrite, data := c.data.clock read dataWrite }

/-- The edge after a cycle that served requests. -/
def checkEdge (bus : Bus.Request) : Cache :=
  let miss := c.misses bus
  let loads := c.loads bus
  let loadLine := c.loadLine bus
  let read := if loads then some loadLine else none
  let tagWrite := c.tagWrite bus
  let dataWrite := c.dataWrite bus
  let registers : Cache :=
    { c with
      state :=
        if miss then if c.tags.out.dirty then .evict {} else .refill {}
        else .check
      sampled := if miss then { adr := bus.adr } else ⟨bus.cyc, bus.stb, bus.adr⟩
      loadedLine := if loads then loadLine else c.loadedLine
      stale :=
        if loads then c.writesLine bus loadLine else c.stale || c.writesLine bus c.loadedLine
      retrying := miss || (c.retrying && !c.acks bus)
      counters := c.countCheck bus }
  registers.clockMemories read tagWrite dataWrite

/-- The number of bytes that a write beat carries. -/
def enabledBytes (beat : WriteBeat) : Nat := (List.range 64).countP beat.byteEnable.testBit

/-- The counters after a stalled cycle with the given transfers. -/
def countStall (t : Transfers) : Counters :=
  let n := c.counters
  { n with
    cycles := n.cycles + 1
    stallCycles := n.stallCycles + 1
    evictions := n.evictions + t.write.isSome.toNat
    refills := n.refills + t.read.isSome.toNat
    bytesWritten := n.bytesWritten + (t.write.map enabledBytes).getD 0
    bytesRead := n.bytesRead + (t.read.map List.length).getD 0 }

/-- The edge after a cycle of an eviction. A completed eviction goes on to the refill. -/
def evictEdge (p : Progress) (t : Transfers) : Cache :=
  { c with
    state :=
      if p.isDone then .refill {}
      else .evict ⟨p.command || t.command.isSome, p.beat || t.write.isSome⟩
    counters := c.countStall t }

/-- The clean line that a refill installs: a block of another size is cut or padded with zeros. -/
def install (block : Block) : Cache :=
  let missed := c.missed
  let dataWrite : DataWrite := ⟨missed.line, Block.fit c.geometry.lineBytes block, c.data.fullMask⟩
  let registers : Cache := { c with stale := c.stale || missed.line == c.loadedLine }
  registers.clockMemories none (some (missed.line, fun _ => ⟨missed.tag, false⟩)) (some dataWrite)

/-- The edge after a cycle of a refill. A completed refill goes back to serving requests. -/
def refillEdge (p : Progress) (t : Transfers) : Cache :=
  let counters := c.countStall t
  let filled := match t.read with
    | none => c
    | some block => c.install block
  { filled with
    state :=
      if p.isDone then .check
      else .refill ⟨p.command || t.command.isSome, p.beat || t.read.isSome⟩
    counters }

/-- The cache after a cycle with the given request and answer of the store. -/
def next (bus : Bus.Request) (link : Response) : Cache :=
  match c.state with
  | .check => c.checkEdge bus
  | .evict p => c.evictEdge p (Transfers.resolve c.linkRequest link)
  | .refill p => c.refillEdge p (Transfers.resolve c.linkRequest link)

/-- One cycle: what the cache drives in it, and the cache after it. -/
def step (bus : Bus.Request) (link : Response) : Outputs × Cache :=
  ({ bus := c.busResponse bus, link := c.linkRequest }, c.next bus link)

@[simp] theorem step_fst (bus : Bus.Request) (link : Response) :
    (c.step bus link).1 = { bus := c.busResponse bus, link := c.linkRequest } := rfl

@[simp] theorem step_snd (bus : Bus.Request) (link : Response) :
    (c.step bus link).2 = c.next bus link := rfl

end WriteBack.Cache
