/-!
# WriteBack.Bits

Powers of two, the masks made of them, and sums of words. Every width of the cache is counted in bits of a 64-bit
word, so a mask never reaches beyond 64 bits, and a sum is cut off there.
-/

-- Powers of numbers are those of the core library, whatever a later module imports.
attribute [instance (20000), default_instance 20000] instPowNat

namespace WriteBack

/-! ## Powers of two -/

/-- Whether `n` is a power of two; zero is none. -/
def isPow2 (n : Nat) : Bool := 2 ^ n.log2 == n

theorem isPow2_two_pow (k : Nat) : isPow2 (2 ^ k) = true := by
  simp [isPow2, Nat.log2_two_pow]

/-- The powers of two are what the check accepts. -/
theorem isPow2_iff {n : Nat} : isPow2 n = true ↔ ∃ k, n = 2 ^ k := by
  constructor
  · intro h
    exact ⟨n.log2, (beq_iff_eq.mp h).symm⟩
  · rintro ⟨k, rfl⟩
    exact isPow2_two_pow k

/-- A power of two is the one of its logarithm. -/
theorem eq_two_pow_log2 {n : Nat} (h : isPow2 n = true) : n = 2 ^ n.log2 :=
  (beq_iff_eq.mp h).symm

theorem pos_of_isPow2 {n : Nat} (h : isPow2 n = true) : 0 < n := by
  rw [eq_two_pow_log2 h]
  exact Nat.two_pow_pos _

/-! ## Masks -/

/-- The mask of the low `bits` bits of a 64-bit word; from 64 bits on it is the whole word. -/
def lowMask (bits : Nat) : Nat := 2 ^ min bits 64 - 1

/-- The low `bits` bits of a 64-bit word. -/
def lowBits (bits n : Nat) : Nat := n % 2 ^ min bits 64

/-- Up to 64 bits, a mask has as many bits as it is asked for. -/
theorem lowMask_of_le {bits : Nat} (h : bits ≤ 64) : lowMask bits = 2 ^ bits - 1 := by
  simp [lowMask, Nat.min_eq_left h]

/-- Up to 64 bits, the low bits are a remainder. -/
theorem lowBits_of_le {bits : Nat} (h : bits ≤ 64) (n : Nat) : lowBits bits n = n % 2 ^ bits := by
  simp [lowBits, Nat.min_eq_left h]

/-- Masking a number keeps its low bits. -/
theorem and_lowMask (n bits : Nat) : n &&& lowMask bits = lowBits bits n := by
  simp [lowMask, lowBits, Nat.and_two_pow_sub_one_eq_mod]

/-- Low bits stay below their width, and within a word. -/
theorem lowBits_lt (bits n : Nat) : lowBits bits n < 2 ^ min bits 64 :=
  Nat.mod_lt _ (Nat.two_pow_pos _)

/-- A mask is one less than a power of two. -/
theorem lowMask_add_one (bits : Nat) : lowMask bits + 1 = 2 ^ min bits 64 := by
  have := Nat.two_pow_pos (min bits 64)
  simp only [lowMask]
  omega

/-- A mask has no bit above its own. -/
theorem lowMask_lt {bits n : Nat} (h : min bits 64 ≤ n) : lowMask bits < 2 ^ n := by
  have := lowMask_add_one bits
  have : 2 ^ min bits 64 ≤ 2 ^ n := Nat.pow_le_pow_right (by decide) h
  omega

/-! ## Sums -/

namespace Word

/-- The sum of two 64-bit words; a carry out of the word is lost. -/
def add (m n : Nat) : Nat := (m + n) % 2 ^ 64

/-- Losing a carry only makes a sum smaller. -/
theorem add_le (m n : Nat) : add m n ≤ m + n := Nat.mod_le ..

/-- A sum of three loses the carries of both additions together. -/
theorem add_add (k m n : Nat) : add (add k m) n = (k + m + n) % 2 ^ 64 := Nat.mod_add_mod ..

end Word

end WriteBack
