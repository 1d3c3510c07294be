import WriteBack.Bits

/-!
# WriteBack.Block

Blocks of bytes and the little-endian words in them. A block is what a cache line holds and what the backing
store moves. The one way to change a block is `Block.merge`: it takes new bytes where an enable mask says so,
one mask bit for each granule of a fixed number of bytes.
-/

namespace WriteBack

/-- A block of bytes, lowest address first. -/
abbrev Block := List UInt8

namespace Block

/-! ## Words -/

/-- `n` zero bytes. -/
def zeros (n : Nat) : Block := List.replicate n 0

/-- The number that the bytes write, low byte first. -/
def toNat (bytes : Block) : Nat := bytes.foldr (fun b rest => b.toNat + 256 * rest) 0

/-- The `n` low bytes of a number, low byte first. -/
def ofNat : (n : Nat) → (word : Nat) → Block
  | 0, _ => []
  | n + 1, word => UInt8.ofNat word :: ofNat n (word / 256)

/-- The `n` bytes from position `start` on. -/
def slice (start n : Nat) (block : Block) : Block := (block.drop start).take n

/-- Word number `index` of a block of words of `size` bytes. -/
def word (size index : Nat) (block : Block) : Nat := toNat (slice (index * size) size block)

/-- A block of `count` words of `size` bytes, all equal to `word`. -/
def fill (size count word : Nat) : Block := (List.replicate count (ofNat size word)).flatten

/-- The block cut, or padded with zeros, to `n` bytes. -/
def fit (n : Nat) (block : Block) : Block := block.take n ++ zeros (n - block.length)

@[simp] theorem length_zeros (n : Nat) : (zeros n).length = n := by
  simp [zeros]

@[simp] theorem length_ofNat (n word : Nat) : (ofNat n word).length = n := by
  induction n generalizing word with
  | zero => rfl
  | succ n ih => simp [ofNat, ih]

@[simp] theorem length_fill (size count word : Nat) : (fill size count word).length = count * size := by
  simp [fill]

@[simp] theorem length_fit (n : Nat) (block : Block) : (fit n block).length = n := by
  simp only [fit, List.length_append, List.length_take, length_zeros]
  omega

/-- A block that has the length already stays as it is. -/
theorem fit_eq_self {n : Nat} {block : Block} (h : block.length = n) : fit n block = block := by
  subst h
  simp [fit, zeros]

/-- A number of `n` bytes is below `256 ^ n`. -/
theorem toNat_lt (bytes : Block) : toNat bytes < 256 ^ bytes.length := by
  induction bytes with
  | nil => simp [toNat]
  | cons b rest ih =>
    have hb := b.toNat_lt
    simp only [toNat, List.foldr_cons, List.length_cons, Nat.pow_succ] at ih ⊢
    omega

/-! ## Masked changes -/

/-- Takes the bytes of `new` into `old` in every whole granule that the mask enables. -/
def merge (granule mask : Nat) (new old : Block) : Block :=
  old.mapIdx fun i b =>
    if i / granule < old.length / granule ∧ mask.testBit (i / granule) then new.getD i b else b

/-- A masked change keeps the length of a block. -/
@[simp] theorem length_merge (granule mask : Nat) (new old : Block) :
    (merge granule mask new old).length = old.length := by
  simp [merge]

/-- The bytes of a masked change, one by one. -/
theorem getElem?_merge (granule mask : Nat) (new old : Block) (i : Nat) :
    (merge granule mask new old)[i]? = old[i]?.map fun b =>
      if i / granule < old.length / granule ∧ mask.testBit (i / granule) then new.getD i b else b := by
  simp [merge]

/-- Without an enabled granule nothing changes. -/
theorem merge_zero (granule : Nat) (new old : Block) : merge granule 0 new old = old := by
  apply List.ext_getElem?
  intro i
  simp [getElem?_merge]

/-- The bytes of every enabled granule are there to take. -/
def Covers (granule mask : Nat) (new old : Block) : Prop :=
  ∀ g < old.length / granule, mask.testBit g = true → (g + 1) * granule ≤ new.length

instance (granule mask : Nat) (new old : Block) : Decidable (Covers granule mask new old) :=
  inferInstanceAs (Decidable (∀ g < old.length / granule, _))

end Block

end WriteBack
