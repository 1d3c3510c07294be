import Mathlib.Data.List.Nodup
import WriteBack.Proofs.Checked

/-!
# WriteBack.Proofs.BurstSequence

Where each beat of a burst goes. The address generator knows only how to get from one beat to the next; here it has a
closed form (`addresses_closed_form`). A linear burst adds the number of the beat to the start and cuts the sum to the
address width. A wrapping burst does so in its low bits and keeps the others. Either way the addresses are
`base + (start + i) % n`, from which it follows that every `n` beats in a row visit the same `n` words once each
(`sweep_add_mod`). Where the address is narrower than the field that wraps, the field is cut as well, and the burst
visits the whole memory.
-/

namespace WriteBack

/-! ## Counting in circles -/

/-- Numbers that are less than `n` apart differ modulo `n`. -/
theorem eq_of_add_mod_eq {n s i j k : Nat} (hj : i ≤ j) (hjn : j < i + n) (hk : i ≤ k) (hkn : k < i + n)
    (h : (s + j) % n = (s + k) % n) : j = k := by
  have hforth := Nat.sub_mod_eq_zero_of_mod_eq h
  have hback := Nat.sub_mod_eq_zero_of_mod_eq h.symm
  rw [Nat.add_sub_add_left, Nat.mod_eq_of_lt (by omega)] at hforth hback
  omega

/-- Every remainder is reached within `n` numbers. -/
theorem exists_add_mod_eq {n r : Nat} (hr : r < n) (s i : Nat) : ∃ j, i ≤ j ∧ j < i + n ∧ (s + j) % n = r := by
  have hdiv := Nat.div_add_mod (s + i) n
  have hlt := Nat.mod_lt (s + i) (Nat.zero_lt_of_lt hr)
  by_cases hle : (s + i) % n ≤ r
  · refine ⟨i + (r - (s + i) % n), by omega, by omega, ?_⟩
    rw [show s + (i + (r - (s + i) % n)) = n * ((s + i) / n) + r by omega, Nat.mul_add_mod, Nat.mod_eq_of_lt hr]
  · refine ⟨i + (r + n - (s + i) % n), by omega, by omega, ?_⟩
    rw [show s + (i + (r + n - (s + i) % n)) = n * ((s + i) / n) + n + r by omega, ← Nat.mul_succ, Nat.mul_add_mod,
      Nat.mod_eq_of_lt hr]

/-- The number `high` with its low `bits` bits replaced by those of `low`. -/
def replaceLow (bits high low : Nat) : Nat := high / 2 ^ bits * 2 ^ bits + low % 2 ^ bits

theorem replaceLow_lt {bits width high : Nat} (hle : bits ≤ width) (h : high < 2 ^ width) (low : Nat) :
    replaceLow bits high low < 2 ^ width := by
  have hlow := Nat.mod_lt low (Nat.two_pow_pos bits)
  rw [← Nat.sub_add_cancel hle, Nat.pow_add] at h ⊢
  have hhigh : (high / 2 ^ bits + 1) * 2 ^ bits ≤ 2 ^ (width - bits) * 2 ^ bits :=
    Nat.mul_le_mul_right _ (Nat.div_lt_of_lt_mul (Nat.mul_comm .. ▸ h))
  rw [Nat.succ_mul] at hhigh
  exact Nat.lt_of_lt_of_le (Nat.add_lt_add_left hlow _) hhigh

theorem replaceLow_div (bits high low : Nat) : replaceLow bits high low / 2 ^ bits = high / 2 ^ bits := by
  rw [replaceLow, Nat.mul_comm, Nat.mul_add_div (Nat.two_pow_pos bits),
    Nat.div_eq_of_lt (Nat.mod_lt low (Nat.two_pow_pos bits)), Nat.add_zero]

theorem replaceLow_add_mod (bits high low n : Nat) :
    (replaceLow bits high low + n) % 2 ^ bits = (low + n) % 2 ^ bits := by
  rw [replaceLow, Nat.mul_comm, Nat.add_assoc, Nat.mul_add_mod, Nat.mod_add_mod]

/-- Counting on from a number whose low bits were replaced counts in those bits alone. -/
theorem replaceLow_succ (bits high low : Nat) :
    replaceLow bits (replaceLow bits high low) (replaceLow bits high low + 1) = replaceLow bits high (low + 1) := by
  rw [replaceLow, replaceLow_div, replaceLow_add_mod, ← replaceLow]

namespace BurstKind

/-! ## The beats of a burst -/

/-- The address of beat `i` of a burst that starts at `start`. -/
def address (k : BurstKind) (mask start : Nat) : (i : Nat) → Nat
  | 0 => start &&& mask
  | i + 1 => k.next mask (address k mask start i)

/-- From some beat on, the addresses are those of the beats that are left. -/
theorem addressesFrom_address (k : BurstKind) (mask start i n : Nat) :
    k.addressesFrom mask (k.address mask start i) n = (List.range' i n).map (k.address mask start) := by
  induction n generalizing i with
  | zero => rfl
  | succ n ih => rw [addressesFrom, List.range'_succ, List.map_cons, ← ih (i + 1), address]

/-- The addresses of a burst, beat by beat. -/
theorem addresses_eq_map (k : BurstKind) (mask start n : Nat) :
    k.addresses mask start n = (List.range n).map (k.address mask start) := by
  rw [List.range_eq_range']
  exact k.addressesFrom_address mask start 0 n

/-- The addresses of `n` beats in a row. -/
theorem drop_addresses (k : BurstKind) (mask start i n : Nat) :
    (k.addresses mask start (i + n)).drop i = (List.range' i n).map (k.address mask start) := by
  rw [addresses_eq_map, ← List.map_drop, List.range_eq_range', List.drop_range', Nat.zero_add, Nat.mul_one,
    Nat.add_sub_cancel_left]

section ClosedForm

variable {w : Nat} (hw : w ≤ 64) {k : BurstKind} (start : Nat)
include hw

theorem address_zero_eq : k.address (lowMask w) start 0 = start % 2 ^ w := by
  rw [address, and_lowMask, lowBits_of_le hw]

/-- A linear burst counts through the whole address. -/
theorem address_linear (h : k.wrapBits = none) (i : Nat) :
    k.address (lowMask w) start i = (start + i) % 2 ^ w := by
  induction i with
  | zero => exact address_zero_eq hw start
  | succ i ih => simp only [address, next, h, ih, and_lowMask, lowBits_of_le hw, Nat.mod_add_mod, Nat.add_assoc]

/-- An address that holds the field that wraps keeps the bits above it. -/
theorem address_wrapping {b : Nat} (h : k.wrapBits = some b) (hb : b ≤ w) (i : Nat) :
    k.address (lowMask w) start i = replaceLow b (start % 2 ^ w) (start + i) := by
  have hstart := Nat.mod_lt start (Nat.two_pow_pos w)
  induction i with
  | zero =>
      have hlow : start % 2 ^ b = start % 2 ^ w % 2 ^ b := (Nat.mod_mod_of_dvd start (Nat.pow_dvd_pow 2 hb)).symm
      rw [address_zero_eq hw, replaceLow, Nat.add_zero, hlow, Nat.div_add_mod']
  | succ i ih =>
      have hnext : k.address (lowMask w) start (i + 1) =
          replaceLow b (replaceLow b (start % 2 ^ w) (start + i)) (replaceLow b (start % 2 ^ w) (start + i) + 1)
            % 2 ^ w := by
        simp only [address, next, h, ih, and_lowMask, lowBits_of_le hw, replaceLow]
      rw [hnext, replaceLow_succ, Nat.mod_eq_of_lt (replaceLow_lt hb hstart _), Nat.add_assoc]

/-- In an address that is narrower than the field that wraps, nothing is left to keep. -/
theorem address_narrow {b : Nat} (h : k.wrapBits = some b) (hb : w < b) (i : Nat) :
    k.address (lowMask w) start i = (start + i) % 2 ^ w := by
  have hdvd : 2 ^ w ∣ 2 ^ b := Nat.pow_dvd_pow 2 (Nat.le_of_lt hb)
  induction i with
  | zero => exact address_zero_eq hw start
  | succ i ih =>
      have hlt : (start + i) % 2 ^ w < 2 ^ b :=
        Nat.lt_trans (Nat.mod_lt _ (Nat.two_pow_pos w)) (Nat.pow_lt_pow_right (by decide) hb)
      simp only [address, next, h, ih, and_lowMask, lowBits_of_le hw, Nat.div_eq_of_lt hlt, Nat.zero_mul, Nat.zero_add,
        Nat.mod_mod_of_dvd _ hdvd, Nat.mod_add_mod, Nat.add_assoc]

/-- One form for every width of the address. -/
theorem address_eq_replaceLow {b : Nat} (h : k.wrapBits = some b) (i : Nat) :
    k.address (lowMask w) start i = replaceLow b (start &&& lowMask w) (start + i) &&& lowMask w := by
  have hstart := Nat.mod_lt start (Nat.two_pow_pos w)
  rw [and_lowMask, and_lowMask, lowBits_of_le hw, lowBits_of_le hw]
  rcases Nat.lt_or_ge w b with hlt | hge
  · have hhigh : start % 2 ^ w < 2 ^ b := Nat.lt_trans hstart (Nat.pow_lt_pow_right (by decide) hlt)
    rw [address_narrow hw start h hlt, replaceLow, Nat.div_eq_of_lt hhigh, Nat.zero_mul, Nat.zero_add,
      Nat.mod_mod_of_dvd _ (Nat.pow_dvd_pow 2 (Nat.le_of_lt hlt))]
  · rw [address_wrapping hw start h hge, Nat.mod_eq_of_lt (replaceLow_lt hge hstart _)]

end ClosedForm

/-! ## Whole rounds -/

/-- Every `n` beats in a row visit the words of a group once each, always in the same order. -/
structure Sweeps (k : BurstKind) (mask start n : Nat) (group : Nat → Prop) : Prop where
  distinct : ∀ i, ((k.addresses mask start (i + n)).drop i).Nodup
  covers : ∀ i a, a ∈ (k.addresses mask start (i + n)).drop i ↔ group a
  repeats : ∀ i, k.address mask start (i + n) = k.address mask start i

/-- Beats that count modulo `n` sweep `n` words from `base` on. -/
theorem sweep_add_mod {k : BurstKind} {mask start base n : Nat} (hn : 0 < n)
    (h : ∀ i, k.address mask start i = base + (start + i) % n) :
    k.Sweeps mask start n fun a => base ≤ a ∧ a < base + n where
  distinct i := by
    rw [drop_addresses]
    refine List.Nodup.map_on (fun j hj j' hj' he => ?_) (List.nodup_range' 1)
    rw [List.mem_range'_1] at hj hj'
    rw [h, h] at he
    exact eq_of_add_mod_eq hj.1 hj.2 hj'.1 hj'.2 (Nat.add_left_cancel he)
  covers i a := by
    simp only [drop_addresses, List.mem_map, List.mem_range'_1, h]
    constructor
    · rintro ⟨j, _, rfl⟩
      exact ⟨Nat.le_add_right .., Nat.add_lt_add_left (Nat.mod_lt _ hn) _⟩
    · rintro ⟨hle, hlt⟩
      obtain ⟨j, hij, hjn, hj⟩ := exists_add_mod_eq (n := n) (r := a - base) (by omega) start i
      exact ⟨j, ⟨hij, hjn⟩, by omega⟩
  repeats i := by rw [h, h, ← Nat.add_assoc, Nat.add_mod_right]

/-- The addresses of the bursts of one kind, for addresses of `w` bits. -/
structure ClosedForm (k : BurstKind) (w start : Nat) : Prop where
  /-- The address of a beat does not depend on how many beats follow. -/
  beats : ∀ n, k.addresses (lowMask w) start n = (List.range n).map (k.address (lowMask w) start)
  /-- A machine gets from beat to beat in 64-bit words, with a mask for the bits that wrap. -/
  steps : ∀ i, k.next? (lowMask w) (k.address (lowMask w) start i) = some (k.address (lowMask w) start (i + 1))
  linear : k.wrapBits = none → ∀ i, k.address (lowMask w) start i = (start + i) % 2 ^ w
  wrapping : ∀ b, k.wrapBits = some b → ∀ i,
    k.address (lowMask w) start i = replaceLow b (start &&& lowMask w) (start + i) &&& lowMask w
  /-- A round of a wrapping burst is the aligned group of the start. -/
  group : ∀ b, k.wrapBits = some b → b ≤ w →
    k.Sweeps (lowMask w) start (2 ^ b) fun a => a / 2 ^ b = (start &&& lowMask w) / 2 ^ b
  /-- Where the group does not fit the address, a round is the whole memory. -/
  narrow : ∀ b, k.wrapBits = some b → w < b → k.Sweeps (lowMask w) start (2 ^ w) (· < 2 ^ w)

/-- **The addresses of a burst in closed form**, for every width of the address, every start and every kind of
burst. -/
theorem addresses_closed_form {w : Nat} (hw : w ≤ 64) (k : BurstKind) (start : Nat) : k.ClosedForm w start where
  beats := k.addresses_eq_map (lowMask w) start
  steps i := k.next?_eq (lowMask_lt (Nat.min_le_right ..)) _
  linear := address_linear hw start
  wrapping _ := address_eq_replaceLow hw start
  group b h hb := by
    have hpos := Nat.two_pow_pos b
    have hsweep := sweep_add_mod hpos (address_wrapping hw start h hb)
    have hgroup (a : Nat) : a / 2 ^ b = (start &&& lowMask w) / 2 ^ b ↔
        start % 2 ^ w / 2 ^ b * 2 ^ b ≤ a ∧ a < start % 2 ^ w / 2 ^ b * 2 ^ b + 2 ^ b := by
      rw [and_lowMask, lowBits_of_le hw, Nat.div_eq_iff hpos]
      omega
    simpa only [hgroup] using hsweep
  narrow b h hb := by
    have hsweep : k.Sweeps (lowMask w) start (2 ^ w) fun a => 0 ≤ a ∧ a < 0 + 2 ^ w :=
      sweep_add_mod (Nat.two_pow_pos w) fun i => (address_narrow hw start h hb i).trans (Nat.zero_add _).symm
    simpa only [Nat.zero_le, true_and, Nat.zero_add] using hsweep

/-- The top of the widest address: a linear burst goes on at zero, and a wrapping one stays in the last group. -/
theorem addresses_closed_form_top :
    64 ≤ 64 ∧ linear.address (lowMask 64) (2 ^ 64 - 1) 1 = 0 ∧
      wrap16.address (lowMask 64) (2 ^ 64 - 1) 1 = 2 ^ 64 - 16 := by
  have hlinear := (addresses_closed_form (w := 64) (by decide) linear (2 ^ 64 - 1)).linear rfl 1
  have hwrap := (addresses_closed_form (w := 64) (by decide) wrap16 (2 ^ 64 - 1)).wrapping 4 rfl 1
  exact ⟨by decide, hlinear, hwrap⟩

/-- A group of 16 words in a memory of two. -/
example : wrap16.addresses (lowMask 1) 7 4 = [1, 0, 1, 0] := by decide

end BurstKind

end WriteBack
