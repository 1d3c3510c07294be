import WriteBack.Burst

/-!
# WriteBack.Bus

The signals between the initiator and the cache. The initiator holds every signal until the beat is
acknowledged, except that the address of an incrementing burst advances with each acknowledged beat.
-/

namespace WriteBack

/-- What the initiator says about the beats to come. -/
inductive CycleType where
  /-- A transaction of a single beat. -/
  | classic
  /-- A beat of an incrementing burst that another beat follows. -/
  | increment
  /-- The last beat of a burst. -/
  | endOfBurst
deriving DecidableEq, Repr

namespace Bus

/-- The signals that the initiator drives for one cycle. -/
structure Request where
  /-- A bus cycle is in progress. -/
  cyc : Bool := false
  /-- A beat is presented. -/
  stb : Bool := false
  /-- The beat writes. -/
  we : Bool := false
  /-- One select bit per granule of the bus word. -/
  sel : Nat := 0
  /-- The word address. -/
  adr : Nat := 0
  /-- The word to write. -/
  datW : Nat := 0
  cti : CycleType := .classic
  bte : BurstKind := .linear
deriving DecidableEq, Repr

namespace Request

/-- No beat is presented. -/
def idle : Request := {}

/-- A single-beat read. -/
def read (adr sel : Nat) : Request := { cyc := true, stb := true, sel, adr }

/-- A single-beat write of the granules in `sel`. -/
def write (adr datW sel : Nat) : Request :=
  { cyc := true, stb := true, we := true, sel, adr, datW }

/-- The request as a beat of a burst. -/
def withBurst (r : Request) (cti : CycleType) (bte : BurstKind) : Request := { r with cti, bte }

/-- A beat is presented within a bus cycle. -/
def isActive (r : Request) : Bool := r.cyc && r.stb

end Request

/-- The signals that the cache drives for one cycle. -/
structure Response where
  /-- The beat is acknowledged. -/
  ack : Bool := false
  /-- The word read; meaningful only on an acknowledged read. -/
  datR : Nat := 0
deriving DecidableEq, Repr

end Bus

end WriteBack
