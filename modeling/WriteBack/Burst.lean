import WriteBack.Bits

/-!
# WriteBack.Burst

The addresses that the beats of an incrementing burst visit. A linear burst counts through the whole address
and may carry into the tag; a wrapping burst counts only the low bits and leaves every bit above in place.
-/

namespace WriteBack

/-- How the address advances from one beat of a burst to the next. -/
inductive BurstKind where
  /-- Counts through the whole address. -/
  | linear
  /-- Stays within an aligned group of 4 words. -/
  | wrap4
  /-- Stays within an aligned group of 8 words. -/
  | wrap8
  /-- Stays within an aligned group of 16 words. -/
  | wrap16
deriving DecidableEq, Repr

namespace BurstKind

/-- How many low address bits wrap. -/
def wrapBits : BurstKind → Option Nat
  | .linear => none
  | .wrap4 => some 2
  | .wrap8 => some 3
  | .wrap16 => some 4

/-- The number of words in the group that a wrapping burst stays in. -/
def wrapLength (k : BurstKind) : Option Nat := k.wrapBits.map (2 ^ ·)

/-- The address of the beat after `addr`; `mask` holds the valid address bits. -/
def next (k : BurstKind) (mask addr : Nat) : Nat :=
  match k.wrapBits with
  | none => (addr + 1) &&& mask
  | some b => (addr / 2 ^ b * 2 ^ b + (addr + 1) % 2 ^ b) &&& mask

/-- `n` beat addresses, the first of them `addr`. -/
def addressesFrom (k : BurstKind) (mask : Nat) : (addr n : Nat) → List Nat
  | _, 0 => []
  | addr, n + 1 => addr :: addressesFrom k mask (k.next mask addr) n

/-- The addresses of the first `n` beats of a burst that starts at `start`. -/
def addresses (k : BurstKind) (mask start n : Nat) : List Nat :=
  k.addressesFrom mask (start &&& mask) n

@[simp] theorem length_addressesFrom (k : BurstKind) (mask addr n : Nat) :
    (k.addressesFrom mask addr n).length = n := by
  induction n generalizing addr with
  | zero => rfl
  | succ n ih => simp [addressesFrom, ih]

@[simp] theorem length_addresses (k : BurstKind) (mask start n : Nat) :
    (k.addresses mask start n).length = n := by
  simp [addresses]

end BurstKind

end WriteBack
