import Mathlib.Data.List.Induction
import WriteBack.Proofs.AckTick
import WriteBack.Proofs.Checked

/-!
# WriteBack.Proofs.ServiceTime

When a memory store serves a command, for any client. A store that has taken a command is in one of two phases: it
counts down the latency and offers nothing, or it offers the beat and waits for the client (`Holds.serve_waiting`,
`Holds.serve_offering`). What a client offers meanwhile, early, late or on other channels, does not matter, so the beat
comes on an exact cycle and stays until it is taken (`ServesAfter`). How long the countdown is depends, for a store
with a row buffer, on the command before: the row that is open is the row of that command, after any history
(`latency_serveAll_rowBuffer`). The times of a row buffer are 64-bit words. A latency that is a sum of them is the plain
sum where that is a word; where it is not, additions that wrap lose the carries, and additions that are checked refuse
(`accessTime?`).
-/

namespace WriteBack

open Link

/-- The beat of the operation went across. -/
def Link.Transfers.hasBeat (t : Transfers) : Bool := t.write.isSome || t.read.isSome

/-- Without a command and a beat, nothing goes across. -/
theorem Link.Transfers.eq_empty_of_hasBeat {t : Transfers} (hcommand : t.command = none) (hbeat : t.hasBeat = false) :
    t = {} := by
  obtain ⟨command, write, read⟩ := t
  obtain rfl : command = none := hcommand
  cases write with
  | some beat => cases hbeat
  | none =>
      cases read with
      | some block => cases hbeat
      | none => rfl

/-- What a store drives to serve the beat of a command: it takes a write, or it offers the block that is read. -/
def Link.Command.beatOffer (command : Command) (block : Block) : Response :=
  if command.we then { writeReady := true } else { read := some block }

namespace MemoryStore

variable {L : Type}

/-! ## A store and its client -/

/-- What goes across when a client drives a request. -/
def transfers (m : MemoryStore L) (request : Request) : Transfers := .resolve request m.respond

section Serve

variable [LatencyModel L]

/-- The store after a cycle with a request. -/
def serve (m : MemoryStore L) (request : Request) : MemoryStore L := m.clock (m.transfers request)

/-- The store after a cycle with each of the requests. -/
def serveAll (m : MemoryStore L) (requests : List Request) : MemoryStore L := requests.foldl serve m

/-- What goes across in each of these cycles. -/
def edges (m : MemoryStore L) : List Request → List Transfers
  | [] => []
  | request :: requests => m.transfers request :: edges (m.serve request) requests

/-- The latency that the model returns for a command. -/
def accessTime (m : MemoryStore L) (command : Command) : Nat :=
  (LatencyModel.access m.latency (m.key command.addr)).1

theorem serveAll_concat (m : MemoryStore L) (requests : List Request) (request : Request) :
    m.serveAll (requests ++ [request]) = (m.serveAll requests).serve request := by
  rw [serveAll, List.foldl_append]
  rfl

end Serve

/-! ## The phases of an operation -/

section Transfers

variable {m : MemoryStore L} {command : Command}

/-- Nothing goes across during the countdown. -/
theorem transfers_waiting {wait : Nat} (h : m.pending = some ⟨command, wait + 1⟩) (request : Request) :
    m.transfers request = {} := by
  simp [transfers, Transfers.resolve, respond, h]

/-- A store with a beat on offer takes no command. -/
theorem command_offering (h : m.pending = some ⟨command, 0⟩) (request : Request) :
    (m.transfers request).command = none := by
  cases hwe : command.we <;> simp [transfers, Transfers.resolve, respond, h, hwe]

/-- A command is taken by an idle store only, and then nothing else goes across. -/
theorem transfers_of_command {request : Request} (h : (m.transfers request).command = some command) :
    m.transfers request = { command := some command } := by
  cases hp : m.pending with
  | none =>
      have hcommand : request.command = some command := by simpa [transfers, Transfers.resolve, respond, hp] using h
      simp [transfers, Transfers.resolve, respond, hp, hcommand]
  | some p =>
      obtain ⟨_, wait⟩ := p
      cases wait with
      | zero =>
          rw [command_offering hp] at h
          cases h
      | succ n =>
          rw [transfers_waiting hp] at h
          cases h

end Transfers

/-- The store has a command with so many cycles to wait, and this is the block that the command names. -/
structure Holds (m : MemoryStore L) (command : Command) (block : Block) (wait : Nat) : Prop where
  pending : m.pending = some ⟨command, wait⟩
  block : m.readBlock command.addr = block

namespace Holds

variable {m : MemoryStore L} {command : Command} {block : Block} {wait : Nat}

/-- Nothing is on offer during the countdown. -/
theorem respond_waiting (h : m.Holds command block (wait + 1)) : m.respond = {} := by
  simp [respond, h.pending]

/-- The beat is on offer after it. -/
theorem respond_offering (h : m.Holds command block 0) : m.respond = command.beatOffer block := by
  simp [respond, h.pending, Command.beatOffer, h.block]

variable [LatencyModel L]

/-- A cycle of the countdown. -/
theorem serve_waiting (h : m.Holds command block (wait + 1)) (request : Request) :
    (m.serve request).Holds command block wait := by
  rw [serve, transfers_waiting h.pending]
  exact ⟨pending_clock_waiting h.pending, h.block⟩

/-- A cycle in which the beat is on offer and does not go across. -/
theorem serve_untaken (h : m.Holds command block 0) {request : Request}
    (hbeat : (m.transfers request).hasBeat = false) : (m.serve request).Holds command block 0 := by
  rw [serve, Transfers.eq_empty_of_hasBeat (command_offering h.pending request) hbeat]
  exact ⟨by simp [clock, countDown, h.pending], h.block⟩

/-- The cycle in which the beat goes across leaves an idle store. -/
theorem serve_taken (h : m.Holds command block 0) {request : Request}
    (hbeat : (m.transfers request).hasBeat = true) : (m.serve request).pending = none := by
  have hcommand := command_offering h.pending request
  rw [serve]
  generalize m.transfers request = t at hcommand hbeat
  obtain ⟨_, write, read⟩ := t
  obtain rfl : _ = none := hcommand
  cases write with
  | none =>
      cases read with
      | none => cases hbeat
      | some block => rfl
  | some beat => cases read <;> simp [clock, countDown, takeWrite, finishRead, h.pending]

/-- Any number of cycles, as long as the beat does not go across. -/
theorem serveAll (h : m.Holds command block wait) {requests : List Request}
    (hbeat : ∀ t ∈ m.edges requests, t.hasBeat = false) :
    (m.serveAll requests).Holds command block (wait - requests.length) := by
  induction requests generalizing m wait with
  | nil => exact h
  | cons request requests ih =>
      obtain ⟨hfirst, hrest⟩ := List.forall_mem_cons.mp hbeat
      cases wait with
      | zero =>
          rw [Nat.zero_sub, ← Nat.zero_sub requests.length]
          exact ih (h.serve_untaken hfirst) hrest
      | succ n =>
          rw [List.length_cons, Nat.add_sub_add_right]
          exact ih (h.serve_waiting request) hrest

/-- No beat goes across during the countdown. -/
theorem hasBeat_waiting (h : m.Holds command block wait) {requests : List Request} (hle : requests.length ≤ wait) :
    ∀ t ∈ m.edges requests, t.hasBeat = false := by
  induction requests generalizing m wait with
  | nil => exact fun t ht => nomatch ht
  | cons request requests ih =>
      rw [List.length_cons] at hle
      obtain ⟨n, rfl⟩ := Nat.exists_eq_add_one_of_ne_zero (show wait ≠ 0 by omega)
      refine List.forall_mem_cons.mpr ⟨?_, ih (h.serve_waiting request) (by omega)⟩
      rw [transfers_waiting h.pending]
      rfl

end Holds

/-! ## From the command to its beat -/

variable [LatencyModel L]

/-- A store that has just taken a command serves its beat after `wait` cycles, whatever its client drives: nothing is
on offer before, then the beat alone until it is taken, and then the store is ready for the next command. -/
structure ServesAfter (m : MemoryStore L) (command : Command) (block : Block) (wait : Nat) : Prop where
  waits : ∀ requests, requests.length < wait → (m.serveAll requests).respond = {}
  offers : ∀ requests, wait ≤ requests.length → (∀ t ∈ m.edges requests, t.hasBeat = false) →
    (m.serveAll requests).respond = command.beatOffer block
  retires : ∀ requests request, (∀ t ∈ m.edges requests, t.hasBeat = false) →
    ((m.serveAll requests).transfers request).hasBeat = true →
    (m.serveAll (requests ++ [request])).respond = { commandReady := true }

/-- The store on the edge on which it takes a command. -/
theorem holds_of_command {m : MemoryStore L} {request : Request} {command : Command}
    (h : (m.transfers request).command = some command) :
    (m.serve request).Holds command (m.readBlock command.addr) (m.accessTime command) := by
  rw [serve, transfers_of_command h]
  exact ⟨pending_clock_command, rfl⟩

/-- A store that holds a command serves it when its wait is over. -/
theorem Holds.servesAfter {m : MemoryStore L} {command : Command} {block : Block} {wait : Nat}
    (h : m.Holds command block wait) : m.ServesAfter command block wait where
  waits requests hlt := by
    have hnow := h.serveAll (h.hasBeat_waiting (Nat.le_of_lt hlt))
    obtain ⟨n, hn⟩ := Nat.exists_eq_add_one_of_ne_zero (show wait - requests.length ≠ 0 by omega)
    exact (hn ▸ hnow).respond_waiting
  offers requests hle hbeat := by
    have hnow := h.serveAll hbeat
    rw [Nat.sub_eq_zero_of_le hle] at hnow
    exact hnow.respond_offering
  retires requests request hbeat htaken := by
    have hnow := h.serveAll hbeat
    rw [serveAll_concat]
    cases hwait : wait - requests.length with
    | zero =>
        rw [hwait] at hnow
        rw [respond, hnow.serve_taken htaken]
    | succ n =>
        rw [hwait] at hnow
        rw [transfers_waiting hnow.pending] at htaken
        cases htaken

/-! ## The open row -/

@[simp] theorem key_serve (m : MemoryStore L) (request : Request) (addr : Nat) :
    (m.serve request).key addr = m.key addr := key_clock ..

/-- The latency model sees the commands that are taken, in order, and nothing else. -/
theorem latency_serveAll (m : MemoryStore L) (requests : List Request) :
    (m.serveAll requests).latency =
      ((m.edges requests).filterMap Transfers.command).foldl
        (fun latency command => (LatencyModel.access latency (m.key command.addr)).2) m.latency := by
  induction requests generalizing m with
  | nil => rfl
  | cons request requests ih =>
      have hserve : (m.serve request).latency = _ := latency_clock (m.transfers request)
      have hrest := ih (m.serve request)
      simp only [key_serve] at hrest
      rw [serveAll, List.foldl_cons, ← serveAll, hrest, hserve, edges, List.filterMap_cons]
      cases (m.transfers request).command <;> rfl

end MemoryStore

/-! ### Its times in words -/

namespace RowBuffer

variable (b : RowBuffer)

/-- The time of an access as a number, whether or not it fits a word. -/
def time (addr : Nat) : Nat :=
  match b.openRow with
  | none => b.tRas + b.tCas
  | some r => if r = b.row addr then b.tCas else b.tPre + b.tRas + b.tCas

/-- The time of an access, by additions that refuse what does not fit a word. -/
def latency? (addr : Nat) : Option Nat :=
  match b.openRow with
  | none => Word.add? b.tRas b.tCas
  | some r => if r = b.row addr then some b.tCas else do Word.add? (← Word.add? b.tPre b.tRas) b.tCas

variable {b}

/-- By additions that wrap, carries are lost and nothing else. -/
theorem latency_eq (h : b.tCas < 2 ^ 64) (addr : Nat) : b.latency addr = b.time addr % 2 ^ 64 := by
  rw [latency, time]
  cases b.openRow with
  | none => rfl
  | some r =>
      by_cases hrow : r = b.row addr
      · simp only [if_pos hrow, Nat.mod_eq_of_lt h]
      · simp only [if_neg hrow, Word.add_add]

/-- By additions that are checked, the time is there exactly when it is a word. -/
theorem latency?_eq (h : b.tCas < 2 ^ 64) (addr : Nat) :
    b.latency? addr = if b.time addr < 2 ^ 64 then some (b.time addr) else none := by
  rw [latency?, time]
  cases b.openRow with
  | none => rfl
  | some r =>
      by_cases hrow : r = b.row addr
      · simp only [if_pos hrow, if_pos h]
      · simp only [if_neg hrow]
        exact Word.add?_bind_add? ..

end RowBuffer

/-- The time of an access, by additions that refuse what does not fit a word. -/
def Timing.latency? : Timing → Nat → Option Nat
  | .fixed n, _ => some n
  | .rowBuffer b, addr => b.latency? addr

/-! ### Its row -/

/-- After some accesses the row of the last one is open. -/
theorem RowBuffer.foldl_access (b : RowBuffer) (addrs : List Nat) :
    addrs.foldl (fun timing addr => (LatencyModel.access timing addr).2) (Timing.rowBuffer b) =
      .rowBuffer { b with openRow := (addrs.getLast?.map b.row).or b.openRow } := by
  induction addrs using List.reverseRecOn with
  | nil => rfl
  | append_singleton addrs addr ih =>
      rw [List.foldl_append, ih, List.getLast?_concat]
      rfl

namespace MemoryStore

/-- The latency of a command, by additions that refuse what does not fit a word. -/
def accessTime? (m : MemoryStore Timing) (command : Command) : Option Nat :=
  m.latency.latency? (m.key command.addr)

/-- The latency that a store with a row buffer returns, and the one that it returns with checked additions. -/
theorem accessTime_of_rowBuffer {m : MemoryStore Timing} {b : RowBuffer} (h : m.latency = .rowBuffer b)
    (hCas : b.tCas < 2 ^ 64) (command : Command) :
    m.accessTime command = b.time (m.key command.addr) % 2 ^ 64 ∧
      m.accessTime? command =
        if b.time (m.key command.addr) < 2 ^ 64 then some (b.time (m.key command.addr)) else none := by
  rw [accessTime, accessTime?, h]
  exact ⟨RowBuffer.latency_eq hCas _, RowBuffer.latency?_eq hCas _⟩

/-- A block is kept under a 64-bit word. -/
theorem key_lt {L : Type} (m : MemoryStore L) (addr : Nat) : m.key addr < 2 ^ 64 :=
  Nat.lt_of_lt_of_le (lowBits_lt ..) (Nat.pow_le_pow_right (by decide) (Nat.min_le_right ..))

@[simp] theorem key_serveAll {L : Type} [LatencyModel L] (m : MemoryStore L) (requests : List Request) (addr : Nat) :
    (m.serveAll requests).key addr = m.key addr := by
  induction requests generalizing m with
  | nil => rfl
  | cons request requests ih => exact (ih (m.serve request)).trans (key_serve ..)

/-- The row buffer of a store holds the row of the command that was taken last. -/
theorem latency_serveAll_rowBuffer {m : MemoryStore Timing} {b : RowBuffer} (h : m.latency = .rowBuffer b)
    (requests : List Request) :
    (m.serveAll requests).latency = .rowBuffer { b with
      openRow := ((((m.edges requests).filterMap Transfers.command).getLast?.map fun command =>
        b.row (m.key command.addr)).or b.openRow) } := by
  have hrows := b.foldl_access (((m.edges requests).filterMap Transfers.command).map fun command => m.key command.addr)
  rw [List.foldl_map, List.getLast?_map, Option.map_map] at hrows
  rw [latency_serveAll, h, hrows]
  rfl

/-- The row of a block: the address bits from `rowBits` on, as far as a 64-bit word has any. -/
theorem row_key (m : MemoryStore Timing) (b : RowBuffer) (addr : Nat) :
    b.row (m.key addr) = Word.shiftRightOrZero (m.key addr) b.rowBits := by
  rw [Word.shiftRightOrZero_eq (m.key_lt addr), RowBuffer.row, Nat.shiftRight_eq_div_pow]

/-- The time of a command depends on the command before it, if no row is open before the first. -/
theorem time_after (m : MemoryStore Timing) {b : RowBuffer} (hopen : b.openRow = none) (last : Option Command)
    (command : Command) :
    RowBuffer.time { b with openRow := (last.map fun command => b.row (m.key command.addr)).or b.openRow }
        (m.key command.addr) =
      match last with
      | none => b.tRas + b.tCas
      | some previous =>
        if Word.shiftRightOrZero (m.key previous.addr) b.rowBits =
            Word.shiftRightOrZero (m.key command.addr) b.rowBits then b.tCas
        else b.tPre + b.tRas + b.tCas := by
  rw [hopen, ← row_key]
  cases last with
  | none => rfl
  | some previous =>
      dsimp only
      rw [← row_key]
      rfl

/-- **Beats are served on time**, for every store, every latency model and every client.

* After a command is taken, with the latency that the model returns for it, the store offers nothing for as many
  cycles and the matching data channel alone from then on, with the block as it was, until the beat goes across; in
  the cycle after that it offers to take a command, and nothing else.
* A row buffer takes the time to open a row and to deliver for the first command. Then it takes the time to deliver
  alone where a command names the row of the one before it, and the time to close a row, to open one and to deliver
  where it does not. Its times are words, and so is the latency: the sum of them if that is a word. If it is not,
  the latency is what is left of the sum without the carries, and a store that checks its additions refuses the
  command. -/
theorem beats_served_on_time :
    (∀ (L : Type) [LatencyModel L] (m : MemoryStore L) (request : Request) (command : Command),
      (m.transfers request).command = some command →
        (m.serve request).ServesAfter command (m.readBlock command.addr) (m.accessTime command)) ∧
    ∀ (m : MemoryStore Timing) (tCas tRas tPre : UInt64) (rowBits : Nat),
      m.latency = .rowBuffer (.ofTimes tCas tRas tPre rowBits) →
        ∀ requests command,
          let time : Nat := match ((m.edges requests).filterMap Transfers.command).getLast? with
            | none => tRas.toNat + tCas.toNat
            | some previous =>
              if Word.shiftRightOrZero (m.key previous.addr) rowBits =
                  Word.shiftRightOrZero (m.key command.addr) rowBits then tCas.toNat
              else tPre.toNat + tRas.toNat + tCas.toNat
          (m.serveAll requests).accessTime command = time % 2 ^ 64 ∧
            (m.serveAll requests).accessTime? command = if time < 2 ^ 64 then some time else none := by
  refine ⟨fun L _ m request command h => (holds_of_command h).servesAfter, ?_⟩
  intro m tCas tRas tPre rowBits hlatency requests command
  obtain ⟨hwords, hchecked⟩ :=
    accessTime_of_rowBuffer (latency_serveAll_rowBuffer hlatency requests) tCas.toNat_lt command
  rw [key_serveAll, time_after m rfl] at hwords hchecked
  exact ⟨hwords, hchecked⟩

/-- An empty store with rows of two blocks. -/
def pairedRows (tPre : UInt64) : MemoryStore Timing where
  lineBytes := 2
  addrWidth := 2
  latency := .rowBuffer (.ofTimes 1 2 tPre 1)

/-- Its client asks for block 5, which is block 1, and keeps asking: the row is opened, block 0 is in the same row, and
block 2 is in the other one. With a row that takes as long as can be to close, the time for block 2 is no word. -/
theorem beats_served_on_time_pairedRows :
    let m := pairedRows 4
    let slow := pairedRows (-1)
    let request : Request := { command := some ⟨5, false, true⟩, readReady := true }
    (m.transfers request).command = some ⟨5, false, true⟩ ∧
      ((m.serve request).serveAll [request, request]).respond = {} ∧
      ((m.serve request).serveAll [request, request, request]).respond = { read := some [0, 0] } ∧
      ((m.serve request).serveAll [request, request, request, request]).respond = { commandReady := true } ∧
      (m.serveAll [request]).accessTime ⟨0, false, true⟩ = 1 ∧
      (m.serveAll [request]).accessTime ⟨2, false, true⟩ = 7 ∧
      (slow.serveAll [request]).accessTime ⟨2, false, true⟩ = 2 ∧
      (slow.serveAll [request]).accessTime? ⟨2, false, true⟩ = none := by
  intro m slow request
  obtain ⟨hserves, htimes⟩ := beats_served_on_time
  have htaken : (m.transfers request).command = some ⟨5, false, true⟩ := rfl
  have hserve := hserves Timing m request ⟨5, false, true⟩ htaken
  have hrows := htimes m 1 2 4 1 rfl [request]
  have hslow := htimes slow 1 2 (-1) 1 rfl [request] ⟨2, false, true⟩
  have hbeat : ∀ t ∈ (m.serve request).edges [request, request, request], t.hasBeat = false := by
    decide +kernel
  refine ⟨htaken, hserve.waits [request, request] (by decide), ?_, ?_, ?_, ?_, ?_, ?_⟩
  · exact hserve.offers [request, request, request] (by decide) hbeat
  · exact hserve.retires [request, request, request] request hbeat rfl
  · exact (hrows ⟨0, false, true⟩).1.trans (by decide)
  · exact (hrows ⟨2, false, true⟩).1.trans (by decide)
  · exact hslow.1.trans (by decide)
  · exact hslow.2.trans (by decide)

end MemoryStore

end WriteBack
