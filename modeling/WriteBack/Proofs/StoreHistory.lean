import WriteBack.Link.MonitoredStore
import WriteBack.Store

/-!
# WriteBack.Proofs.StoreHistory

A memory store behind its monitor, for any client. The client may offer commands and beats early, again or of
the wrong kind, as long as it breaks no rule of the link. Both the store and the monitor see nothing but the
transfers, and each keeps its own account of them. An accepted cycle can only do one of four things
(`Step`, `step_of_commit`), and each of them keeps the two accounts equal (`Agrees.step`). So over a whole run the
blocks of the store are those that the log of the monitor leads to (`Agrees.serve`).
-/

namespace WriteBack

open Link

/-! ## The memory that a log describes -/

namespace Link.Operation

/-- The contents of all blocks after a completed operation. A write changes the enabled bytes of the block that
has its address, as far as addresses count; a read changes nothing. -/
def apply (op : Operation) (addrWidth : Nat) (blocks : Nat → Block) (addr : Nat) : Block :=
  if op.we = true ∧ lowBits addrWidth op.addr = lowBits addrWidth addr then
    Block.merge 1 op.byteEnable op.data (blocks addr)
  else blocks addr

/-- The command of a completed operation. -/
def command (op : Operation) : Command := ⟨op.addr, op.we, op.last⟩

/-- The beat of a completed write. -/
def writeBeat (op : Operation) : WriteBeat := ⟨op.data, op.byteEnable⟩

end Link.Operation

/-- The contents of all blocks after the operations of a log. -/
def replay (addrWidth : Nat) (blocks : Nat → Block) (log : List Operation) : Nat → Block :=
  log.foldl (fun blocks op => op.apply addrWidth blocks) blocks

@[simp] theorem replay_append (addrWidth : Nat) (blocks : Nat → Block) (log : List Operation) (op : Operation) :
    replay addrWidth blocks (log ++ [op]) = op.apply addrWidth (replay addrWidth blocks log) := by
  simp [replay]

/-- Every read of a log returned what the operations before it left in its block. -/
def ReadsBack (addrWidth : Nat) (blocks : Nat → Block) (log : List Operation) : Prop :=
  ∀ i op, log[i]? = some op → op.we = false → op.data = replay addrWidth blocks (log.take i) op.addr

theorem ReadsBack.append {addrWidth : Nat} {blocks : Nat → Block} {log : List Operation} {op : Operation}
    (h : ReadsBack addrWidth blocks log)
    (hop : op.we = false → op.data = replay addrWidth blocks log op.addr) :
    ReadsBack addrWidth blocks (log ++ [op]) := by
  intro i op' hi
  rcases Nat.lt_trichotomy i log.length with hlt | rfl | hgt
  · rw [List.getElem?_append_left hlt] at hi
    rw [List.take_append_of_le_length (Nat.le_of_lt hlt)]
    exact h i op' hi
  · simp_all
  · rw [List.getElem?_eq_none (by simpa [Nat.succ_le_iff] using hgt)] at hi
    cases hi

/-- A block that no operation writes keeps its contents. -/
theorem replay_eq_self {addrWidth : Nat} {blocks : Nat → Block} {log : List Operation} {addr : Nat}
    (h : ∀ op ∈ log, op.we = true → lowBits addrWidth op.addr ≠ lowBits addrWidth addr) :
    replay addrWidth blocks log addr = blocks addr := by
  induction log generalizing blocks with
  | nil => rfl
  | cons op log ih =>
      have hop : op.apply addrWidth blocks addr = blocks addr := by
        simp only [Operation.apply]
        grind
      rw [← hop]
      exact ih fun op hop => h op (by simp [hop])

/-- What a write does to a store is what its log entry does to the blocks. -/
theorem MemoryStore.readBlock_writeBlock_eq_apply {L : Type} (m : MemoryStore L) {op : Operation}
    (hwe : op.we = true) :
    (m.writeBlock op.addr op.data op.byteEnable).readBlock = op.apply m.addrWidth m.readBlock := by
  funext a
  have hblock : m.key op.addr = m.key a → m.readBlock op.addr = m.readBlock a := fun h => by
    simp [readBlock, h]
  rw [readBlock_writeBlock]
  simp only [Operation.apply, hwe, key, true_and] at hblock ⊢
  grind

/-- A read leaves the blocks as they are. -/
theorem Link.Operation.apply_of_read {op : Operation} (hwe : op.we = false) (addrWidth : Nat)
    (blocks : Nat → Block) : op.apply addrWidth blocks = blocks := by
  funext a
  simp [apply, hwe]

/-! ## Clients -/

namespace Link.MonitoredStore

section Serve

variable {S : Type} [BackingStore S]

/-- What goes across when a client drives some requests, one in each cycle, and the link after them; an error
as soon as a request breaks a rule. -/
def serve (p : MonitoredStore S) :
    (requests : List Request) → Except Violation (List Transfers × MonitoredStore S)
  | [] => .ok ([], p)
  | request :: requests =>
    match p.commit request p.drive with
    | (.error v, _) => .error v
    | (.ok t, p) => (serve p requests).map fun (edges, p) => (t :: edges, p)

/-- A cycle that breaks no rule. -/
theorem commit_eq_ok {p p' : MonitoredStore S} {request : Request} {response : Response} {t : Transfers} :
    p.commit request response = (.ok t, p') ↔
      (p.monitor.observe request (.resolve request response)).1 = none ∧
        t = .resolve request response ∧
        p' = ⟨BackingStore.clock p.store t, (p.monitor.observe request t).2⟩ := by
  simp only [commit_eq]
  cases hverdict : (p.monitor.observe request (.resolve request response)).1 <;> grind

theorem serve_cons_eq_ok {p p' : MonitoredStore S} {request : Request} {requests : List Request}
    {edges : List Transfers} (h : p.serve (request :: requests) = .ok (edges, p')) :
    ∃ t q rest, p.commit request p.drive = (.ok t, q) ∧ q.serve requests = .ok (rest, p') ∧
      edges = t :: rest := by
  rw [serve] at h
  split at h
  · cases h
  · next t q hcommit =>
    cases hrest : q.serve requests with
    | error v => simp [hrest, Except.map] at h
    | ok r =>
        obtain ⟨rest, p''⟩ := r
        simp only [hrest, Except.map, Except.ok.injEq, Prod.mk.injEq] at h
        obtain ⟨rfl, rfl⟩ := h
        exact ⟨t, q, rest, hcommit, hrest, rfl⟩

end Serve

variable {L : Type}

/-! ## One cycle -/

/-- What an accepted cycle can do: nothing but pass, or complete a command, a write or a read. -/
inductive Step [LatencyModel L] (p : MonitoredStore (MemoryStore L)) :
    Transfers → MonitoredStore (MemoryStore L) → Prop
  | pass : Step p {} ⟨p.store.countDown, p.monitor.advance⟩
  | command (c : Command) : p.store.pending = none →
      Step p { command := some c }
        ⟨p.store.takeCommand c, { p.monitor.advance with command := some c }⟩
  | write (op : Operation) : p.store.pending = some ⟨op.command, 0⟩ → op.we = true →
      Step p { write := some op.writeBeat }
        ⟨{ p.store.writeBlock op.addr op.data op.byteEnable with
            pending := none, writes := p.store.writes + 1 },
          { p.monitor.advance with command := none, log := p.monitor.log.push op }⟩
  | read (op : Operation) : p.store.pending = some ⟨op.command, 0⟩ → op.we = false →
      op.data = p.store.readBlock op.addr →
      Step p { read := some op.data }
        ⟨p.store.finishRead, { p.monitor.advance with command := none, log := p.monitor.log.push op }⟩

/-- An accepted cycle of a monitor that knows of the pending command and of no beat. -/
theorem step_of_commit [LatencyModel L] {p p' : MonitoredStore (MemoryStore L)} {request : Request} {t : Transfers}
    (hcommand : p.monitor.command = p.store.pending.map Pending.command) (hwrite : p.monitor.write = none)
    (hread : p.monitor.read = none) (h : p.commit request p.drive = (.ok t, p')) : p.Step t p' := by
  obtain ⟨hok, rfl, rfl⟩ := commit_eq_ok.mp h
  obtain ⟨⟨lineBytes, addrWidth, blocks, latency, pending, reads, writes⟩, ⟨cycle, command, write, read, log⟩⟩ := p
  obtain ⟨offer, beat, ready⟩ := request
  dsimp only at hcommand hwrite hread
  subst hcommand hwrite hread
  cases pending with
  | none =>
      cases offer with
      | none => cases beat <;> cases ready <;> exact .pass
      | some c =>
          obtain ⟨addr, we, last⟩ := c
          cases we <;> cases beat <;> cases ready <;> exact .command _ rfl
  | some q =>
      obtain ⟨⟨addr, we, last⟩, wait⟩ := q
      cases offer with
      | some c => cases hok
      | none =>
          cases wait with
          | succ n => cases we <;> cases beat <;> cases ready <;> exact .pass
          | zero =>
              cases we with
              | true =>
                  cases beat with
                  | none => cases ready <;> exact .pass
                  | some beat => cases ready <;>
                        exact .write ⟨cycle, addr, true, last, beat.data, beat.byteEnable⟩ rfl rfl
              | false =>
                  cases ready with
                  | false => cases beat <;> exact .pass
                  | true => cases beat <;> exact .read ⟨cycle, addr, false, last, _, 0⟩ rfl rfl rfl

/-! ## The coupling -/

/-- The store and the monitor give the same account of some edges, where `start` is the store before them. -/
structure Agrees (start : MemoryStore L) (edges : List Transfers) (p : MonitoredStore (MemoryStore L)) : Prop where
  addrWidth_eq : p.store.addrWidth = start.addrWidth
  /-- The monitor holds the pending command. -/
  command_eq : p.monitor.command = p.store.pending.map Pending.command
  /-- The store takes no beat without a command, so no beat ever waits for one. -/
  write_eq : p.monitor.write = none
  read_eq : p.monitor.read = none
  readBlock_eq : p.store.readBlock = replay start.addrWidth start.readBlock p.monitor.log.toList
  readsBack : ReadsBack start.addrWidth start.readBlock p.monitor.log.toList
  reads_eq : p.store.reads = p.monitor.reads.size
  writes_eq : p.store.writes = p.monitor.writes.size
  /-- Every command that crossed is logged, in order, but for the pending one. -/
  commands_eq : edges.filterMap Transfers.command =
    p.monitor.log.toList.map Operation.command ++ (p.store.pending.map Pending.command).toList
  /-- Every beat that crossed is logged, in order. -/
  writeBeats_eq : edges.filterMap Transfers.write = p.monitor.writes.toList.map Operation.writeBeat
  readBeats_eq : edges.filterMap Transfers.read = p.monitor.reads.toList.map Operation.data

/-- An idle store that has served nothing agrees with a fresh monitor. -/
theorem agrees_fresh {m : MemoryStore L} (hpending : m.pending = none) (hreads : m.reads = 0)
    (hwrites : m.writes = 0) : Agrees m [] ⟨m, {}⟩ := by
  constructor <;> simp [hpending, hreads, hwrites, Monitor.reads, Monitor.writes, replay, ReadsBack]

/-- The operation in progress is the pending command. -/
theorem Agrees.isBusy_eq {start : MemoryStore L} {edges : List Transfers}
    {p : MonitoredStore (MemoryStore L)} (h : Agrees start edges p) :
    p.monitor.isBusy = p.store.pending.isSome := by
  simp [Monitor.isBusy, h.command_eq, h.write_eq, h.read_eq]

variable [LatencyModel L]

/-- Every accepted cycle keeps the accounts equal. -/
theorem Agrees.step {start : MemoryStore L} {edges : List Transfers} {p p' : MonitoredStore (MemoryStore L)}
    {t : Transfers} (h : Agrees start edges p) (hstep : p.Step t p') : Agrees start (edges ++ [t]) p' := by
  obtain ⟨haddr, hcommand, hwrite, hread, hblocks, hdata, hreads, hwrites, hcs, hws, hrs⟩ := h
  simp only [Monitor.reads, Monitor.writes] at hreads hwrites hws hrs
  cases hstep with
  | pass =>
      refine ⟨haddr, ?_, hwrite, hread, hblocks, hdata, hreads, hwrites, ?_, ?_, ?_⟩
      all_goals simp_all [Monitor.reads, Monitor.writes, Monitor.advance, MemoryStore.countDown, Function.comp_def]
  | command c hp =>
      refine ⟨haddr, rfl, hwrite, hread, hblocks, hdata, hreads, hwrites, ?_, ?_, ?_⟩
      all_goals simp_all [Monitor.reads, Monitor.writes, Monitor.advance, MemoryStore.takeCommand]
  | write op hp hwe =>
      refine ⟨haddr, rfl, hwrite, hread, ?_, ?_, ?_, ?_, ?_, ?_, ?_⟩
      · rw [Array.toList_push, replay_append, ← hblocks, ← haddr]
        exact p.store.readBlock_writeBlock_eq_apply hwe
      · rw [Array.toList_push]
        exact hdata.append (by simp [hwe])
      all_goals simp_all [Monitor.reads, Monitor.writes, MemoryStore.writeBlock]
  | read op hp hwe hop =>
      refine ⟨haddr, rfl, hwrite, hread, ?_, ?_, ?_, ?_, ?_, ?_, ?_⟩
      · rw [Array.toList_push, replay_append, ← hblocks, Operation.apply_of_read hwe]
        rfl
      · rw [Array.toList_push]
        exact hdata.append (by simp [hop, hblocks])
      all_goals simp_all [Monitor.reads, Monitor.writes, MemoryStore.finishRead]

/-! ## Runs -/

/-- A client that breaks no rule keeps the accounts equal, for any number of cycles. -/
theorem Agrees.serve {start : MemoryStore L} {edges rest : List Transfers}
    {p p' : MonitoredStore (MemoryStore L)} {requests : List Request} (h : Agrees start edges p)
    (hserve : p.serve requests = .ok (rest, p')) : Agrees start (edges ++ rest) p' := by
  induction requests generalizing edges rest p with
  | nil =>
      obtain ⟨rfl, rfl⟩ : [] = rest ∧ p = p' := by simpa [MonitoredStore.serve] using hserve
      rwa [List.append_nil]
  | cons request requests ih =>
      obtain ⟨t, q, rest, hcommit, hrest, rfl⟩ := serve_cons_eq_ok hserve
      rw [List.append_cons]
      exact ih (h.step (step_of_commit h.command_eq h.write_eq h.read_eq hcommit)) hrest

/-- A fresh link to a store that holds some blocks. -/
def fresh (lineBytes addrWidth : Nat) (blocks : Std.TreeMap Nat Block) (latency : L) :
    MonitoredStore (MemoryStore L) where
  store := { lineBytes, addrWidth, blocks, latency }

/-- **The log accounts for the store**, for every client, every address width, every latency model and every
initial content. As long as the requests of a client break no rule of the link:

* the blocks are the initial ones with the writes of the log applied in order, and a block that was neither
  there nor written reads as zeros;
* every read of the log returned what its block held after the operations before it;
* the store has served as many reads and writes as the log has, and waits for a beat exactly when the monitor
  is busy;
* every command that crossed is in the log once, in order, but for a pending one, and so is every beat. -/
theorem log_accounts_for_store (lineBytes addrWidth : Nat) (blocks : Std.TreeMap Nat Block) (latency : L)
    {requests : List Request} {edges : List Transfers} {p : MonitoredStore (MemoryStore L)}
    (h : (fresh lineBytes addrWidth blocks latency).serve requests = .ok (edges, p)) :
    let start := (fresh lineBytes addrWidth blocks latency).store
    let log := p.monitor.log.toList
    (∀ addr, p.store.readBlock addr = replay addrWidth start.readBlock log addr) ∧
      (∀ addr, start.key addr ∉ blocks →
        (∀ op ∈ log, op.we = true → lowBits addrWidth op.addr ≠ lowBits addrWidth addr) →
        p.store.readBlock addr = Block.zeros lineBytes) ∧
      (∀ i op, log[i]? = some op → op.we = false →
        op.data = replay addrWidth start.readBlock (log.take i) op.addr) ∧
      (p.store.reads = p.monitor.reads.size ∧ p.store.writes = p.monitor.writes.size) ∧
      p.store.pending.isSome = p.monitor.isBusy ∧
      edges.filterMap Transfers.command =
        log.map Operation.command ++ (p.store.pending.map Pending.command).toList ∧
      edges.filterMap Transfers.write = p.monitor.writes.toList.map Operation.writeBeat ∧
      edges.filterMap Transfers.read = p.monitor.reads.toList.map Operation.data := by
  have hagrees := (agrees_fresh (m := (fresh lineBytes addrWidth blocks latency).store) rfl rfl rfl).serve h
  intro start log
  refine ⟨fun addr => congrFun hagrees.readBlock_eq addr, fun addr hkey hwritten => ?_, hagrees.readsBack,
    ⟨hagrees.reads_eq, hagrees.writes_eq⟩, hagrees.isBusy_eq.symm, hagrees.commands_eq,
    hagrees.writeBeats_eq, hagrees.readBeats_eq⟩
  exact (congrFun hagrees.readBlock_eq addr).trans
    ((replay_eq_self hwritten).trans (Std.TreeMap.getD_eq_fallback hkey))

/-- A client that offers a write beat before its command and until it is taken, and then reads the block under an
address that counts as the same. -/
def eagerClient : List Request :=
  [{ write := some ⟨[7, 8], 2⟩ },
    { command := some ⟨1, true, true⟩, write := some ⟨[7, 8], 2⟩ },
    { write := some ⟨[7, 8], 2⟩ },
    { write := some ⟨[7, 8], 2⟩, readReady := true },
    { command := some ⟨3, false, true⟩, readReady := true },
    { readReady := true },
    { readReady := true }]

/-- Its beat is written once, under its byte enable, and it reads what it wrote. -/
theorem log_accounts_for_store_eagerClient :
    ∃ edges p, (fresh 2 1 {} (Timing.fixed 1)).serve eagerClient = .ok (edges, p) ∧
      p.store.readBlock 3 = [0, 8] ∧ p.store.writes = 1 ∧
      p.monitor.reads.toList.map Operation.data = [[0, 8]] := by
  have hserve : (fresh 2 1 {} (Timing.fixed 1)).serve eagerClient = .ok (_, _) := rfl
  obtain ⟨hblocks, _, _, ⟨_, hwrites⟩, _⟩ := log_accounts_for_store 2 1 {} (Timing.fixed 1) hserve
  refine ⟨_, _, hserve, ?_, ?_, ?_⟩
  · rw [hblocks]
    decide +kernel
  · rw [hwrites]
    decide +kernel
  · decide +kernel

end Link.MonitoredStore

end WriteBack
