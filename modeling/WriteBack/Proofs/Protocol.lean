import WriteBack.Proofs.CacheLines
import WriteBack.Proofs.Run

/-!
# WriteBack.Proofs.Protocol

The cache keeps the rules of the link, whatever the store does. The monitor and the cache track the handshakes
of an operation independently; `Watches` says how their states match, for any order of the handshakes. As
the last handshake completes, the monitor files the operation and is idle, while the cache still has one
cycle to go before it leaves the state.

The log grows by the operation that the cache completes, and by nothing else (`observe_evict`,
`observe_refill`).
-/

namespace WriteBack

open Link

namespace Cache

variable (c : Cache)

/-- The command of an eviction. -/
def evictCommand : Command := ⟨c.geometry.layout.blockAddr c.missed.line c.tags.out.tag, true, false⟩

/-- The beat of an eviction. -/
def evictBeat : WriteBeat := ⟨c.data.out, c.geometry.fullByteEnable⟩

/-- The command of a refill. -/
def refillCommand : Command := ⟨c.geometry.layout.blockAddr c.missed.line c.missed.tag, false, true⟩

/-- The operation that an eviction completes. -/
def evictOperation (cycle : Nat) : Operation :=
  ⟨cycle, c.evictCommand.addr, true, false, c.evictBeat.data, c.evictBeat.byteEnable⟩

/-- The operation that a refill completes. -/
def refillOperation (cycle : Nat) (data : Block) : Operation :=
  ⟨cycle, c.refillCommand.addr, false, true, data, 0⟩

end Cache

namespace Link.Monitor

/-- The monitor holds the handshakes that the cache has completed in the current operation. -/
def Watches (m : Monitor) (c : Cache) : Prop :=
  match c.state with
  | .check => m.command = none ∧ m.write = none ∧ m.read = none
  | .evict p =>
    m.command = (if p.command && !p.beat then some c.evictCommand else none) ∧
      m.write = (if p.beat && !p.command then some c.evictBeat else none) ∧ m.read = none
  | .refill p =>
    m.command = (if p.command && !p.beat then some c.refillCommand else none) ∧
      m.write = none ∧ m.read.isSome = (p.beat && !p.command)

/-- While it serves requests, the cache offers nothing. -/
theorem observe_check {m : Monitor} {c : Cache} (hw : m.Watches c) (hs : c.state = .check)
    (link : Response) :
    m.observe c.linkRequest (.resolve c.linkRequest link) = (none, m.advance) := by
  rw [Watches, hs] at hw
  obtain ⟨hc, hwr, hr⟩ := hw
  obtain ⟨cycle, command, write, read, log⟩ := m
  subst hc hwr hr
  simp only [Cache.linkRequest, hs, Transfers.resolve]
  cases link.commandReady <;> cases link.writeReady <;> rfl

/-- A cycle of an eviction is accepted, and the operation is filed as its second handshake completes. -/
theorem observe_evict {m : Monitor} {c : Cache} {p : Progress} (hw : m.Watches c)
    (hs : c.state = .evict p) (link : Response) :
    let t := Transfers.resolve c.linkRequest link
    let p' := Cache.evictProgress p t
    m.observe c.linkRequest t = (none, {
      cycle := m.cycle + 1
      command := if p'.command && !p'.beat then some c.evictCommand else none
      write := if p'.beat && !p'.command then some c.evictBeat else none
      read := none
      log := if !p.isDone && p'.isDone then m.log.push (c.evictOperation m.cycle) else m.log }) := by
  rw [Watches, hs] at hw
  obtain ⟨hc, hwr, hr⟩ := hw
  obtain ⟨cycle, command, write, read, log⟩ := m
  obtain ⟨pc, pb⟩ := p
  obtain ⟨cr, wr, rd⟩ := link
  subst hc hwr hr
  simp only [Cache.linkRequest, hs]
  cases pc <;> cases pb <;> cases cr <;> cases wr <;> rfl

/-- A cycle of a refill is accepted, and the operation is filed as its second handshake completes. -/
theorem observe_refill {m : Monitor} {c : Cache} {p : Progress} (hw : m.Watches c)
    (hs : c.state = .refill p) (link : Response) :
    let t := Transfers.resolve c.linkRequest link
    let p' := Cache.refillProgress p t
    let beat := t.read <|> m.read
    m.observe c.linkRequest t = (none, {
      cycle := m.cycle + 1
      command := if p'.command && !p'.beat then some c.refillCommand else none
      write := none
      read := if p'.beat && !p'.command then beat else none
      log :=
        if !p.isDone && p'.isDone then m.log.push (c.refillOperation m.cycle (beat.getD []))
        else m.log }) := by
  rw [Watches, hs] at hw
  obtain ⟨hc, hwr, hr⟩ := hw
  obtain ⟨cycle, command, write, read, log⟩ := m
  obtain ⟨pc, pb⟩ := p
  obtain ⟨cr, wr, rd⟩ := link
  subst hc hwr
  simp only [Cache.linkRequest, hs]
  cases pc <;> cases pb <;> cases read <;> cases hr <;> cases cr <;> cases wr <;> cases rd <;> rfl

/-! ## Every cycle keeps it -/

/-- The monitor of an idle link watches a cache in which no handshake has completed. -/
theorem watches_idle {m : Monitor} {c : Cache} (hm : m.command = none ∧ m.write = none ∧ m.read = none)
    (hs : c.state = .check ∨ c.state = .evict {} ∨ c.state = .refill {}) : m.Watches c := by
  obtain ⟨hc, hw, hr⟩ := hm
  rcases hs with hs | hs | hs
  · rw [Watches, hs]; exact ⟨hc, hw, hr⟩
  · rw [Watches, hs]; exact ⟨hc, hw, hr⟩
  · rw [Watches, hs, hr]; exact ⟨hc, hw, rfl⟩

/-- **The rules of the link are kept**: the monitor accepts a cycle with any request on the bus and any
answer of the store, and goes on to watch the cache. -/
theorem watches_next {m : Monitor} {c : Cache} (hw : m.Watches c) (bus : Bus.Request) (link : Response) :
    let o := m.observe c.linkRequest (.resolve c.linkRequest link)
    o.1 = none ∧ o.2.Watches (c.next bus link) := by
  cases hs : c.state with
  | check =>
      rw [observe_check hw hs, Cache.next_check hs]
      rw [Watches, hs] at hw
      refine ⟨rfl, watches_idle hw ?_⟩
      rw [Cache.state_checkEdge]
      cases c.misses bus <;> cases c.tags.out.dirty <;> simp
  | evict p =>
      rw [observe_evict hw hs, Cache.next_evict hs]
      refine ⟨rfl, ?_⟩
      cases hdone : p.isDone with
      | true =>
          cases Cache.eq_of_isDone hdone
          exact watches_idle ⟨rfl, rfl, rfl⟩ (.inr (.inr rfl))
      | false =>
          rw [Watches, Cache.state_evictEdge, hdone]
          exact ⟨rfl, rfl, rfl⟩
  | refill p =>
      rw [observe_refill hw hs, Cache.next_refill hs]
      rw [Watches, hs] at hw
      refine ⟨rfl, ?_⟩
      generalize Transfers.resolve c.linkRequest link = t
      cases hdone : p.isDone with
      | true =>
          cases Cache.eq_of_isDone hdone
          exact watches_idle ⟨rfl, rfl, rfl⟩ (.inl rfl)
      | false =>
          have hcommand : (c.refillEdge p t).refillCommand = c.refillCommand := by
            simp only [Cache.refillCommand, Cache.geometry_refillEdge, Cache.missed_refillEdge]
          rw [Watches, Cache.state_refillEdge, hdone]
          refine ⟨by rw [hcommand], rfl, ?_⟩
          -- a beat that waits for its command came in this cycle or an earlier one
          show (if _ then (t.read <|> m.read) else none).isSome = _
          obtain ⟨pc, pb⟩ := p
          obtain ⟨tc, tw, tr⟩ := t
          obtain ⟨_, _, hread⟩ := hw
          revert hread
          cases m.read <;> cases pc <;> cases pb <;> cases tc <;> cases tr <;> simp [Cache.refillProgress]

/-- The watching monitor is busy when one handshake of the operation has completed and the other has not. -/
theorem isBusy_of_watches {m : Monitor} {c : Cache} (hw : m.Watches c) :
    m.isBusy = match c.state with
      | .check => false
      | .evict p | .refill p => p.command != p.beat := by
  cases hs : c.state with
  | check =>
      rw [Watches, hs] at hw
      simp [isBusy, hw]
  | evict p =>
      rw [Watches, hs] at hw
      obtain ⟨hc, hwr, hr⟩ := hw
      obtain ⟨pc, pb⟩ := p
      cases pc <;> cases pb <;> simp_all [isBusy]
  | refill p =>
      rw [Watches, hs] at hw
      obtain ⟨hc, hwr, hr⟩ := hw
      obtain ⟨pc, pb⟩ := p
      cases pc <;> cases pb <;> simp_all [isBusy]

end Link.Monitor

/-! ## Every run -/

namespace Simulator

variable {S : Type}

theorem watches_ofStore (g : Geometry) (store : S) (general : Config.General) :
    (ofStore (Cache.ofGeometry g) store general).link.monitor.Watches (Cache.ofGeometry g) :=
  Monitor.watches_idle ⟨rfl, rfl, rfl⟩ (.inl rfl)

variable [BackingStore S]

/-- Wherever a run leads, the monitor watches the cache. -/
theorem Trace.watches {g : Geometry} {store : S} {general : Config.General} {cycles : List (Cycle S)}
    {s : Simulator S} (h : Trace (ofStore (Cache.ofGeometry g) store general) cycles s) :
    s.link.monitor.Watches s.cache :=
  h.invariant (P := fun s => s.link.monitor.Watches s.cache) (watches_ofStore g store general)
    fun s bus hw => (Monitor.watches_next hw bus s.link.drive).2

/-- Under a watching monitor a cycle succeeds as long as there are cycles left. -/
theorem run_tick_of_watches {s : Simulator S} (hw : s.link.monitor.Watches s.cache) (bus : Bus.Request) :
    (tick bus).run s =
      if s.maxCycles ≤ s.cycle then .error (.cycleBudget s.maxCycles) s
      else .ok (s.cache.busResponse bus) (s.next bus) := by
  have hnone : s.observed.1 = none := (Monitor.watches_next hw bus s.link.drive).1
  rw [run_tick, hnone]

/-- As long as there are cycles left, a run goes on with any requests. -/
theorem Trace.exists_append {start s : Simulator S} {cycles : List (Cycle S)} (h : Trace start cycles s)
    (hw : s.link.monitor.Watches s.cache) (buses : List Bus.Request)
    (hb : s.cycle + buses.length ≤ s.maxCycles) :
    ∃ later, Trace start (cycles ++ later) (buses.foldl next s) ∧ later.map Cycle.bus = buses := by
  induction buses generalizing s cycles with
  | nil => exact ⟨[], by rwa [List.append_nil], rfl⟩
  | cons bus buses ih =>
      rw [List.length_cons] at hb
      have hok : (tick bus).run s = .ok (s.cache.busResponse bus) (s.next bus) := by
        rw [run_tick_of_watches hw, if_neg (by omega)]
      have hb' : (s.next bus).cycle + buses.length ≤ (s.next bus).maxCycles := by
        rw [cycle_next, maxCycles_next]
        omega
      obtain ⟨later, ht, hbuses⟩ := ih (h.snoc hok) (Monitor.watches_next hw bus s.link.drive).2 hb'
      refine ⟨⟨s, bus, s.cache.busResponse bus, s.next bus⟩ :: later, ?_, ?_⟩
      · rwa [List.append_assoc] at ht
      · rw [List.map_cons, hbuses]

/-- Every sequence of requests within the limit of cycles makes a run. -/
theorem exists_trace (g : Geometry) (store : S) (general : Config.General) (buses : List Bus.Request)
    (h : buses.length ≤ general.maxCycles.toNat) :
    ∃ cycles, Trace (ofStore (Cache.ofGeometry g) store general) cycles
      (buses.foldl next (ofStore (Cache.ofGeometry g) store general)) ∧ cycles.map Cycle.bus = buses :=
  Trace.nil.exists_append (watches_ofStore g store general) buses
    (by rw [show (ofStore (Cache.ofGeometry g) store general).cycle = 0 from rfl, Nat.zero_add]; exact h)

/-- **The cache keeps the rules of the link**, for every geometry, every store and every sequence of requests:
in every state that a run reaches the monitor accepts the cycle, so no cycle ends with a broken rule, and the
monitor is busy exactly while one handshake of an eviction or a refill has completed and the other has not. -/
theorem link_rules_kept (g : Geometry) (store : S) (general : Config.General) {cycles : List (Cycle S)}
    {s : Simulator S} (h : Trace (ofStore (Cache.ofGeometry g) store general) cycles s) :
    (s.link.monitor.observe s.cache.linkRequest (.resolve s.cache.linkRequest s.link.drive)).1 = none ∧
      (∀ bus, (tick bus).run s =
        if s.maxCycles ≤ s.cycle then .error (.cycleBudget s.maxCycles) s
        else .ok (s.cache.busResponse bus) (s.next bus)) ∧
      (∀ bus v s', (tick bus).run s ≠ .error (.protocol v) s') ∧
      s.link.monitor.isBusy = match s.cache.state with
        | .check => false
        | .evict p | .refill p => p.command != p.beat := by
  have hw := h.watches
  refine ⟨(Monitor.watches_next hw .idle s.link.drive).1, run_tick_of_watches hw, ?_,
    Monitor.isBusy_of_watches hw⟩
  intro bus v s' he
  rw [run_tick_of_watches hw] at he
  split at he <;> cases he

/-- A cache of one line of two 16-bit words, for 3-bit addresses. -/
def tiny : Geometry where
  sizeBytes := 4
  dataWidth := 16
  granularity := 8
  backingWidth := 32
  wordsPerLine := 2
  lines := 1
  layout := ⟨3, 1, 0, by decide, by decide⟩
  dirtyInit := false
  wordsPerLine_eq := by decide
  lines_eq := by decide
  granularity_eq := by decide
  granularity_pos := by decide
  dataWidth_eq := by decide
  dataWidth_le := by decide
  backingWidth_eq := by decide
  backingWidth_le := by decide
  sizeBytes_eq := by decide

/-- A store that gives the listed answers, one in each cycle, and then keeps silent. -/
structure Scripted where
  answers : List Response

instance : BackingStore Scripted where
  respond s := s.answers.headD {}
  clock s _ := ⟨s.answers.tail⟩

/-- A store that hands over the beat of a refill before it takes the command: the monitor waits for the
command. -/
theorem link_rules_kept_early_beat :
    ∃ cycles s, Trace (ofStore (Cache.ofGeometry tiny)
        (Scripted.mk [{}, {}, { read := some [1, 2, 3, 4] }]) {}) cycles s ∧
      cycles.length = 3 ∧ s.link.monitor.isBusy = true := by
  obtain ⟨cycles, ht, hbuses⟩ := exists_trace tiny (Scripted.mk [{}, {}, { read := some [1, 2, 3, 4] }]) {}
    [.read 0 3, .read 0 3, .read 0 3] (by decide)
  refine ⟨cycles, _, ht, by simpa using congrArg List.length hbuses, ?_⟩
  rw [(link_rules_kept tiny _ {} ht).2.2.2]
  decide

end Simulator

end WriteBack
