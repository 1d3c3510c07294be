import WriteBack.Bits

/-!
# WriteBack.Decimal

Decimal text with a fixed number of places. A binary64 number is a whole number times a power of two, so its
decimal places are those of an exact fraction; it is rounded once, and a half goes to the even neighbour.
-/

namespace WriteBack.Decimal

/-- The quotient rounded to the nearest whole number, a half to the even one. -/
def roundDiv (num den : Nat) : Nat :=
  let q := num / den
  let r := num % den
  if den < 2 * r ∨ (2 * r = den ∧ q % 2 = 1) then q + 1 else q

/-- A fraction of natural numbers. -/
structure Fraction where
  num : Nat
  den : Nat
deriving DecidableEq, Repr

/-- The exact value of a finite binary64 number, from its bits; the sign is left out. -/
def Fraction.ofBits (bits : Nat) : Fraction :=
  let exponent := bits / 2 ^ 52 % 2 ^ 11
  let fraction := bits % 2 ^ 52
  let mantissa := if exponent = 0 then fraction else 2 ^ 52 + fraction
  ⟨mantissa * 2 ^ (max exponent 1 - 1075), 2 ^ (1075 - max exponent 1)⟩

/-- The digits of `n`, with zeros in front up to `width` digits. -/
def padded (width n : Nat) : String :=
  let digits := toString n
  String.ofList (List.replicate (width - digits.length) '0') ++ digits

/-- A fraction with `places` decimal places, at least one. -/
def fixed (places : Nat) (x : Fraction) : String :=
  let n := roundDiv (x.num * 10 ^ places) x.den
  s!"{n / 10 ^ places}.{padded places (n % 10 ^ places)}"

/-- A non-negative finite number with `places` decimal places, at least one. -/
def ofFloat (places : Nat) (x : Float) : String := fixed places (.ofBits x.toBits.toNat)

/-- Rounding errs by at most half a unit. -/
theorem roundDiv_near (num den : Nat) (h : 0 < den) :
    2 * num ≤ 2 * (roundDiv num den * den) + den ∧ 2 * (roundDiv num den * den) ≤ 2 * num + den := by
  have hdiv := Nat.div_add_mod num den
  have hlt := Nat.mod_lt num h
  rw [Nat.mul_comm] at hdiv
  simp only [roundDiv]
  split
  · next hup =>
    rw [Nat.add_mul, Nat.one_mul]
    omega
  · next hdown => omega

end WriteBack.Decimal
