import WriteBack.Cache.Step
import WriteBack.Link.MonitoredStore
import WriteBack.Simulator.Error
import WriteBack.Store

/-!
# WriteBack.Simulator

A cache in front of a monitored store. In every cycle the store drives its half of the link, the cache steps
on that and on the request of the initiator, and the link is committed.

`Run` is what drives a simulator: it returns a value or ends early, and in both cases leaves the simulator in
the state it reached.
-/

namespace WriteBack

open Link

/-- A cache, its store and the limits of the run. -/
structure Simulator (S : Type) where
  cache : Cache
  link : MonitoredStore S
  /-- Completed cycles. -/
  cycle : Nat := 0
  /-- The cycles that the run may take. -/
  maxCycles : Nat
  /-- The cycles that a beat may wait. -/
  timeoutCycles : Nat

/-- A computation that drives a simulator. -/
abbrev Run (S α : Type) := EStateM RunError (Simulator S) α

namespace Simulator

/-- A fresh simulator of a cache in front of a store. -/
def ofStore {S : Type} (cache : Cache) (store : S) (general : Config.General) : Simulator S where
  cache
  link := { store }
  maxCycles := general.maxCycles.toNat
  timeoutCycles := general.timeoutCycles.toNat

/-- A fresh simulator of a configuration, with an empty memory behind the cache. -/
def ofConfig (config : Config) : Except GeometryError (Simulator (MemoryStore Timing)) :=
  (Cache.ofConfig config.cache config.backing).map fun cache =>
    ofStore cache (.ofConfig config.backing) config.general

variable {S : Type} [BackingStore S]

/-- One cycle. When the cycles are used up nothing happens; when a rule of the link is broken the cache and
the store have made their step, but the cycle does not count. -/
def tick (bus : Bus.Request) : Run S Bus.Response := fun s =>
  if s.maxCycles ≤ s.cycle then .error (.cycleBudget s.maxCycles) s
  else match s with
    | ⟨cache, link, cycle, maxCycles, timeoutCycles⟩ =>
      let response := link.drive
      let (outputs, cache) := cache.step bus response
      match link.commit outputs.link response with
      | (.error v, link) => .error (.protocol v) ⟨cache, link, cycle, maxCycles, timeoutCycles⟩
      | (.ok _, link) => .ok outputs.bus ⟨cache, link, cycle + 1, maxCycles, timeoutCycles⟩

/-- `n` cycles with an idle bus. -/
def idle : (n : Nat) → Run S Unit
  | 0 => pure ()
  | n + 1 => do
    let _ ← tick .idle
    idle n

end Simulator

end WriteBack
