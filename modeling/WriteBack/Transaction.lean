import WriteBack.Bus

/-!
# WriteBack.Transaction

What an initiator may ask of the cache.
-/

namespace WriteBack

/-- A transaction on the bus. Addresses count bus words. -/
inductive Transaction where
  | read (adr : Nat)
  /-- Writes the granules in `sel`. -/
  | write (adr data sel : Nat)
  | burstRead (adr : Nat) (kind : BurstKind) (beats : Nat)
  /-- Writes one word per beat, every granule of it. -/
  | burstWrite (adr : Nat) (kind : BurstKind) (data : List Nat)
deriving DecidableEq, Repr

namespace Transaction

/-- The number of beats. -/
def beats : Transaction → Nat
  | .read _ | .write .. => 1
  | .burstRead _ _ n => n
  | .burstWrite _ _ data => data.length

end Transaction

/-- The cycle types of the beats of a burst: only the last one ends it. -/
def CycleType.ofBeats : (beats : Nat) → List CycleType
  | 0 => []
  | 1 => [.endOfBurst]
  | n + 1 => .increment :: ofBeats n

@[simp] theorem CycleType.length_ofBeats (n : Nat) : (ofBeats n).length = n := by
  fun_induction ofBeats n <;> simp_all

end WriteBack
