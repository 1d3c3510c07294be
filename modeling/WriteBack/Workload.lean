import WriteBack.Geometry
import WriteBack.Transaction
import WriteBack.XorShift

/-!
# WriteBack.Workload

Traffic for a cache, drawn from a seed. All addresses lie within a few cache sizes of zero, so that lines are
reused.
-/

namespace WriteBack

/-- A pattern of traffic. -/
inductive Workload where
  /-- Writes consecutive words and reads each back, over twice the cache size. -/
  | sequential
  /-- Reads and partial writes all over four times the cache size. -/
  | random
  /-- Bursts of every kind, each written and read back. -/
  | burst
deriving DecidableEq, Repr

namespace Workload

/-- The name of a pattern. -/
def name : Workload → String
  | .sequential => "sequential"
  | .random => "random"
  | .burst => "burst"

/-- The pattern of exactly this name. -/
def ofExactName? : String → Option Workload
  | "sequential" => some .sequential
  | "random" => some .random
  | "burst" => some .burst
  | _ => none

/-- The pattern of a name in which the case of ASCII letters does not count, or the wording of the
refusal. -/
def ofName (name : String) : Except String Workload :=
  let name := name.map Char.toLower
  match ofExactName? name with
  | some w => .ok w
  | none => .error s!"unknown workload '{name}'"

/-- Every workload is known by its name. -/
theorem ofExactName?_name (w : Workload) : ofExactName? w.name = some w := by
  cases w <;> rfl

/-! ## Drawing -/

variable (g : Geometry)

/-- The number of words that addresses are drawn from: a multiple of the cache, or the whole memory if that
is smaller. -/
def span (factor : Nat) : Nat := min (factor * g.cacheWords) (2 ^ g.layout.addrWidth)

/-- Draws a word of the bus width. -/
def drawWord : StateM XorShift Nat := do
  let x ← modifyGet XorShift.next
  return x.toNat % 2 ^ g.dataWidth

/-- Draws an address. -/
def drawAddress (factor : Nat) : StateM XorShift Nat := modifyGet (·.below (span g factor))

/-- Transaction `i` of sequential traffic: the even ones write a word, and each odd one reads back the word
before it. -/
def drawSequential (i : Nat) : StateM XorShift Transaction := do
  let adr := i / 2 % span g 2
  if i % 2 = 0 then return .write adr (← drawWord g) g.fullSel else return .read adr

/-- A transaction of random traffic. A write selects at least one granule. -/
def drawRandom : StateM XorShift Transaction := do
  let adr ← drawAddress g 4
  if (← modifyGet (·.below 2)) = 0 then return .read adr
  else
    let sel ← modifyGet XorShift.next
    let data ← drawWord g
    return .write adr data (max (sel.toNat % 2 ^ g.selWidth) 1)

/-- The kinds of bursts that are drawn from. -/
def kinds : List BurstKind := [.linear, .wrap4, .wrap8, .wrap16]

/-- The beats of a drawn burst: once around a wrapping one. -/
def burstBeats (kind : BurstKind) : Nat := kind.wrapLength.getD 4

/-- A burst that is written and read back. -/
def drawBurst : StateM XorShift (List Transaction) := do
  let kind := kinds.getD (← modifyGet (·.below kinds.length)) .linear
  let adr ← drawAddress g 4
  let data ← (List.replicate (burstBeats kind) ()).mapM fun _ => drawWord g
  return [.burstWrite adr kind data, .burstRead adr kind data.length]

/-- Draws `count` transactions. -/
def draw (w : Workload) (count : Nat) : StateM XorShift (List Transaction) :=
  match w with
  | .sequential => (List.range count).mapM (drawSequential g)
  | .random => (List.replicate count ()).mapM fun _ => drawRandom g
  | .burst => do
    let bursts ← (List.replicate ((count + 1) / 2) ()).mapM fun _ => drawBurst g
    return bursts.flatten.take count

/-- `count` transactions for a cache, drawn from a seed. -/
def generate (w : Workload) (count : Nat) (seed : UInt64) : List Transaction :=
  ((w.draw g count).run (.ofSeed seed)).run.1

end Workload

end WriteBack
