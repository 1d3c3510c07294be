import WriteBack.Link.Monitor

/-!
# WriteBack.Simulator.Error

How a simulation run can end early.
-/

namespace WriteBack

/-- The hexadecimal form of a number, after `0x`. -/
def hex (n : Nat) : String := "0x" ++ String.ofList (Nat.toDigits 16 n)

/-- Why a run ended early. -/
inductive RunError where
  /-- The cache broke a rule of the link. -/
  | protocol (violation : Link.Violation)
  /-- The beat at this address was not acknowledged in time. -/
  | timeout (addr cycles : Nat)
  /-- A read returned something else than the last value written. -/
  | dataMismatch (addr expected actual : Nat)
  /-- The run used up its cycles. -/
  | cycleBudget (cycles : Nat)
deriving DecidableEq, Repr

/-- The wording of an early end. -/
def RunError.message : RunError → String
  | .protocol v => s!"backing-store protocol violation: {v.message}"
  | .timeout addr cycles => s!"transaction at {hex addr} not acknowledged after {cycles} cycles"
  | .dataMismatch addr expected actual =>
    s!"read of {hex addr} returned {hex actual}, expected {hex expected}"
  | .cycleBudget cycles => s!"cycle budget of {cycles} cycles exhausted"

end WriteBack
