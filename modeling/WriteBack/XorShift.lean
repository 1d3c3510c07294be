/-!
# WriteBack.XorShift

A pseudo-random generator on 64-bit words: three shifts, each added without carry.
-/

namespace WriteBack

/-- The generator; its state is never zero once it is seeded. -/
structure XorShift where
  state : UInt64
deriving DecidableEq, Repr

namespace XorShift

/-- The state that stands in for a zero seed, at which the generator would stick. -/
def zeroSeed : UInt64 := 0x9E3779B97F4A7C15

/-- The generator of a seed. -/
def ofSeed (seed : UInt64) : XorShift := ⟨if seed = 0 then zeroSeed else seed⟩

/-- The state after `x`. -/
def scramble (x : UInt64) : UInt64 :=
  let x := x ^^^ (x <<< 13)
  let x := x ^^^ (x >>> 7)
  x ^^^ (x <<< 17)

/-- Draws a word. -/
def next (g : XorShift) : UInt64 × XorShift :=
  let x := scramble g.state
  (x, ⟨x⟩)

/-- Draws a number below `bound`. -/
def below (g : XorShift) (bound : Nat) : Nat × XorShift :=
  let (x, g) := g.next
  (x.toNat % bound, g)

/-- Draws a number below `bound`; refused when there is none. -/
def below? (g : XorShift) (bound : Nat) : Option (Nat × XorShift) :=
  if bound = 0 then none else some (g.below bound)

end XorShift

end WriteBack
