/-!
# WriteBack.LineMemory

A memory with one cell for each cache line and a read register: a read that is enabled in one cycle
shows in the next. The memory is not transparent. When a read and a write meet on the same edge, the read
takes the contents from before the write.

`LineMemory.clock` is total: an edge that names a line beyond the last one reads and writes nothing there.
`LineMemory.clock?` is the same edge with that case refused.
-/

namespace WriteBack

/-- One cell per line and the read register. -/
structure LineMemory (α : Type) where
  cells : Array α
  /-- What the last enabled read took. -/
  out : α
deriving DecidableEq, Repr

namespace LineMemory

variable {α : Type}

/-- A memory of equal cells; the read register holds one of them. -/
def replicate (lines : Nat) (init : α) : LineMemory α := ⟨Array.replicate lines init, init⟩

/-- The number of lines. -/
def size (m : LineMemory α) : Nat := m.cells.size

/-- The contents of a line, past the read register. -/
def peek? (m : LineMemory α) (line : Nat) : Option α := m.cells[line]?

/-- What the read register holds after an edge. -/
def sample (m : LineMemory α) : (read : Option Nat) → α
  | none => m.out
  | some line => m.cells.getD line m.out

/-- The memory after a write. -/
def change (m : LineMemory α) : (write : Option (Nat × (α → α))) → LineMemory α
  | none => m
  | some (line, f) => { m with cells := m.cells.modify line f }

/-- One clock edge: an enabled read takes a line into the register, an enabled write changes a line. -/
def clock (m : LineMemory α) (read : Option Nat) (write : Option (Nat × (α → α))) : LineMemory α :=
  let out := m.sample read
  { m.change write with out }

/-- Both enabled sides name a line of the memory. -/
def InRange (m : LineMemory α) (read : Option Nat) (write : Option (Nat × (α → α))) : Prop :=
  (∀ line ∈ read, line < m.size) ∧ (∀ w ∈ write, w.1 < m.size)

instance (m : LineMemory α) (read : Option Nat) (write : Option (Nat × (α → α))) :
    Decidable (m.InRange read write) :=
  inferInstanceAs (Decidable (_ ∧ _))

/-- One clock edge, refused when a read or a write names a line that does not exist. -/
def clock? (m : LineMemory α) (read : Option Nat) (write : Option (Nat × (α → α))) :
    Option (LineMemory α) :=
  if m.InRange read write then some (m.clock read write) else none

@[simp] theorem size_replicate (lines : Nat) (init : α) : (replicate lines init).size = lines := by
  simp [replicate, size]

@[simp] theorem size_clock (m : LineMemory α) (read : Option Nat) (write : Option (Nat × (α → α))) :
    (m.clock read write).size = m.size := by
  cases write <;> simp [clock, change, size]

/-- The read register after an edge holds what the line held before it. -/
theorem out_clock_some (m : LineMemory α) (line : Nat) (write : Option (Nat × (α → α))) :
    (m.clock (some line) write).out = (m.peek? line).getD m.out := by
  simp [clock, sample, peek?]

/-- An edge without a read keeps the read register. -/
@[simp] theorem out_clock_none (m : LineMemory α) (write : Option (Nat × (α → α))) :
    (m.clock none write).out = m.out := rfl

/-- An edge without a write keeps the cells. -/
@[simp] theorem peek?_clock_none (m : LineMemory α) (read : Option Nat) (line : Nat) :
    (m.clock read none).peek? line = m.peek? line := rfl

/-- A write changes its cell alone. -/
theorem peek?_clock_some (m : LineMemory α) (read : Option Nat) (target line : Nat)
    (f : α → α) :
    (m.clock read (some (target, f))).peek? line =
      if target = line then (m.peek? line).map f else m.peek? line := by
  simp [clock, change, peek?, Array.getElem?_modify]

end LineMemory

/-! ## The tag memory -/

/-- What the tag memory holds for a line. -/
structure TagEntry where
  /-- The tag of the block in the line. -/
  tag : Nat
  /-- The line holds the only current copy of its block. -/
  dirty : Bool
deriving DecidableEq, Repr

/-- The memory of tags. -/
abbrev TagMemory := LineMemory TagEntry

end WriteBack
