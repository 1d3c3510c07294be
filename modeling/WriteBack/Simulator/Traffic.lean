import WriteBack.Initiator
import WriteBack.Shadow

/-!
# WriteBack.Simulator.Traffic

Runs a list of transactions and checks every word read against a flat memory. Unwritten words are expected to
be zero, which holds for a cold cache in front of an empty store.
-/

namespace WriteBack.Simulator

variable {S : Type} [Link.BackingStore S]

/-- Runs transactions from a given flat memory on; `words` holds the words read so far, latest first. -/
def runFrom (i : Initiator) : ShadowMemory → (words : List Nat) → List Transaction → Run S (List Nat)
  | _, words, [] => return words.reverse
  | shadow, words, t :: rest => do
    let observed ← i.execute t
    match shadow.check t observed with
    | .error e => throw e
    | .ok shadow => runFrom i shadow (observed.reverse ++ words) rest

/-- Runs transactions and returns every word read, in order. The first wrong word ends the run. -/
def runTransactions (transactions : List Transaction) : Run S (List Nat) := do
  let s ← get
  let geometry := s.cache.geometry
  runFrom ⟨geometry, s.timeoutCycles⟩ { geometry } [] transactions

end WriteBack.Simulator
