import Std.Data.TreeMap
import WriteBack.Geometry
import WriteBack.Simulator.Error
import WriteBack.Transaction

/-!
# WriteBack.Shadow

A flat memory of words that a run is checked against. It knows nothing of lines or blocks: a transaction
changes or reads words at addresses, and a word that was never written is zero.
-/

namespace WriteBack

/-- A memory of bus words for the address space of a geometry. -/
structure ShadowMemory where
  geometry : Geometry
  words : Std.TreeMap Nat Nat := {}

namespace ShadowMemory

/-- The bits of the granules in `sel`, for `count` granules of `width` bits. -/
def selectedBits (width count sel : Nat) : Nat :=
  (List.range count).foldl
    (fun bits g => if sel.testBit g then bits ||| lowMask width <<< (g * width) else bits) 0

/-- The word `old` with the bits in `bits` taken from `new`. -/
def mergeBits (bits old new : Nat) : Nat := (old ^^^ (old &&& bits)) ||| (new &&& bits)

variable (m : ShadowMemory)

/-- The current value of a word. -/
def read (adr : Nat) : Nat := m.words.getD (m.geometry.layout.clip adr) 0

/-- The bits of a bus word that a select mask covers. -/
def keep (sel : Nat) : Nat := selectedBits m.geometry.granularity m.geometry.selWidth sel

/-- Takes the granules of `data` in `sel` into a word. -/
def write (adr data sel : Nat) : ShadowMemory :=
  let word := mergeBits (m.keep sel) (m.read adr) data % 2 ^ m.geometry.dataWidth
  { m with words := m.words.insert (m.geometry.layout.clip adr) word }

/-- Compares a word that was read with the current value. -/
def expect (adr actual : Nat) : Except RunError Unit :=
  if actual = m.read adr then .ok ()
  else .error (.dataMismatch (m.geometry.layout.clip adr) (m.read adr) actual)

/-- The addresses that a burst visits. -/
def burst (adr : Nat) (kind : BurstKind) (beats : Nat) : List Nat :=
  kind.addresses m.geometry.layout.addrMask adr beats

/-- Compares words that were read at these addresses; a word that is missing counts as zero. -/
def expectAll : (adrs observed : List Nat) → Except RunError Unit
  | [], _ => .ok ()
  | adr :: adrs, observed => do
    m.expect adr (observed.headD 0)
    expectAll adrs observed.tail

/-- Writes whole words to these addresses. -/
def writeAll (m : ShadowMemory) (writes : List (Nat × Nat)) : ShadowMemory :=
  writes.foldl (fun m (adr, word) => m.write adr word m.geometry.fullSel) m

/-- Compares what a transaction read and applies what it wrote. -/
def check (t : Transaction) (observed : List Nat) : Except RunError ShadowMemory :=
  match t with
  | .read adr => do
    m.expect adr (observed.headD 0)
    return m
  | .write adr data sel => return m.write adr data sel
  | .burstRead adr kind beats => do
    m.expectAll (m.burst adr kind beats) observed
    return m
  | .burstWrite adr kind data => return m.writeAll ((m.burst adr kind data.length).zip data)

end ShadowMemory

end WriteBack
