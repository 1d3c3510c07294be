import Mathlib.Algebra.GroupWithZero.Nat
import WriteBack.Proofs.Interruption
import WriteBack.Proofs.Refinement
import WriteBack.Proofs.StoreHistory

/-!
# WriteBack.Proofs.Conservation

The counters of a cache against what can be seen from outside: the cycles of a run (`Tally`), the log of the
monitor and the store. Within the cache they balance as well (`Balanced`): a miss is a refill, unless it is still
waited for, and an eviction belongs to a miss. Both are kept by every cycle, with any request on the bus
(`counters_conserved`). Between transactions no miss is left over, so then the misses are the retries.
-/

namespace WriteBack

open Link

/-! ## One cycle of the cache -/

namespace Cache

/-- Misses whose block has not come yet. -/
def State.outstanding : State → Nat
  | .check => 0
  | .evict _ => 1
  | .refill p => (!p.beat).toNat

/-- Misses whose victim may have gone to the store while their block has not come yet. -/
def State.written : State → Nat
  | .check => 0
  | .evict p => p.beat.toNat
  | .refill p => (!p.beat).toNat

/-- An operation whose beat is across is still an operation. -/
theorem State.written_le_outstanding (s : State) : s.written ≤ s.outstanding := by
  cases s with
  | check => exact Nat.le_refl 0
  | evict p => exact Bool.toNat_le _
  | refill p => exact Nat.le_refl _

/-- An operation starts with a miss. -/
theorem outstanding_checkEdge (c : Cache) (bus : Bus.Request) :
    (c.checkEdge bus).state.outstanding = (c.misses bus).toNat := by
  rw [state_checkEdge]
  cases c.misses bus <;> cases c.tags.out.dirty <;> rfl

/-- It goes on for as long as its line is evicted. -/
theorem outstanding_evictEdge (c : Cache) (p : Progress) (t : Transfers) :
    (c.evictEdge p t).state.outstanding = 1 := by
  rw [state_evictEdge]
  cases p.isDone <;> rfl

/-- The beat of a victim crosses at most once. -/
theorem written_evictEdge (c : Cache) {p : Progress} {t : Transfers}
    (honce : t.write.isSome = true → p.beat = false) :
    (c.evictEdge p t).state.written = p.beat.toNat + t.write.isSome.toNat := by
  rw [state_evictEdge]
  cases hdone : p.isDone with
  | true =>
      obtain rfl := eq_of_isDone hdone
      cases hwrite : t.write.isSome with
      | true => cases honce hwrite
      | false => rfl
  | false =>
      show (p.beat || t.write.isSome).toNat = _
      cases hwrite : t.write.isSome with
      | true => rw [honce hwrite]; rfl
      | false => rw [Bool.or_false]; rfl

/-- A block comes at most once. -/
theorem outstanding_refillEdge (c : Cache) {p : Progress} {t : Transfers}
    (honce : t.read.isSome = true → p.beat = false) :
    (c.refillEdge p t).state.outstanding + t.read.isSome.toNat = (!p.beat).toNat := by
  rw [state_refillEdge]
  cases hdone : p.isDone with
  | true =>
      obtain rfl := eq_of_isDone hdone
      cases hread : t.read.isSome with
      | true => cases honce hread
      | false => rfl
  | false =>
      show (!(p.beat || t.read.isSome)).toNat + _ = _
      cases hread : t.read.isSome with
      | true => rw [honce hread]; rfl
      | false => rw [Bool.or_false]; rfl

/-- A victim is out once its line is refilled. -/
theorem written_refillEdge (c : Cache) (p : Progress) (t : Transfers) :
    (c.refillEdge p t).state.written = (c.refillEdge p t).state.outstanding := by
  rw [state_refillEdge]
  cases p.isDone <;> rfl

/-- The counters after a cycle. -/
theorem counters_next (c : Cache) (bus : Bus.Request) (link : Response) :
    (c.next bus link).counters =
      match c.state with
      | .check => c.countCheck bus
      | .evict _ | .refill _ => c.countStall (.resolve c.linkRequest link) := by
  cases hs : c.state with
  | check => rw [next_check hs]; rfl
  | evict p => rw [next_evict hs]; rfl
  | refill p => rw [next_refill hs]; rfl

/-- A cycle that serves requests counts an acknowledged read once, as a hit or as a retry. -/
theorem reads_countCheck (c : Cache) (bus : Bus.Request) :
    (c.countCheck bus).readHits + (c.countCheck bus).readRetries =
      c.counters.readHits + c.counters.readRetries + (c.acks bus && !bus.we).toNat := by
  cases hacks : c.acks bus <;> cases hwe : bus.we <;> cases hretry : c.retrying <;>
    simp [countCheck, hacks, hwe, hretry] <;> omega

/-- A beat that is acknowledged after a miss is a retry. -/
theorem retries_countCheck (c : Cache) (bus : Bus.Request) :
    (c.countCheck bus).readRetries + (c.countCheck bus).writeRetries =
      c.counters.readRetries + c.counters.writeRetries + (c.acks bus && c.retrying).toNat := by
  cases hacks : c.acks bus <;> cases hwe : bus.we <;> cases hretry : c.retrying <;>
    simp [countCheck, hacks, hwe, hretry] <;> omega

/-- What a cache that serves requests drives moves nothing across the link. -/
theorem resolve_of_check {c : Cache} (hs : c.state = .check) (link : Response) :
    Transfers.resolve c.linkRequest link = {} := by
  simp [linkRequest, hs, Transfers.resolve]

/-- No write beat goes across while a line is refilled. -/
theorem resolve_refill {c : Cache} {p : Progress} (hs : c.state = .refill p) (link : Response) :
    (Transfers.resolve c.linkRequest link).write = none := by
  simp [linkRequest, refillRequest, hs, Transfers.resolve]

end Cache

namespace Simulator

section Tally

variable {S : Type} [BackingStore S]

/-- The counters say what happened in the cycles of a run. -/
structure Tally (cycles : List (Cycle S)) (n : Counters) : Prop where
  acks_eq : n.acks = cycles.countP fun c => c.response.ack
  reads_eq : n.readHits + n.readRetries = cycles.countP fun c => c.response.ack && !c.bus.we
  stallCycles_eq : n.stallCycles = cycles.countP fun c => c.before.cache.state.isStalled
  evictions_eq : n.evictions = ((cycles.map fun c => c.before.transfers).filterMap Transfers.write).length
  refills_eq : n.refills = ((cycles.map fun c => c.before.transfers).filterMap Transfers.read).length

theorem countP_append_singleton {α : Type} (p : α → Bool) (xs : List α) (x : α) :
    (xs ++ [x]).countP p = xs.countP p + (p x).toNat := by
  cases h : p x <;> simp [h]

theorem length_filterMap_append_singleton {α β : Type} (f : α → Option β) (xs : List α) (x : α) :
    ((xs ++ [x]).filterMap f).length = (xs.filterMap f).length + (f x).isSome.toNat := by
  cases h : f x <;> simp [h]

/-- Every cycle adds to the counters what is seen in it. -/
theorem Tally.next {cycles : List (Cycle S)} {s : Simulator S} (h : Tally cycles s.cache.counters)
    (bus : Bus.Request) (after : Simulator S) :
    Tally (cycles ++ [⟨s, bus, s.cache.busResponse bus, after⟩]) (s.next bus).cache.counters := by
  obtain ⟨hacks, hreads, hstall, hevictions, hrefills⟩ := h
  have hacked := s.cache.acks_next bus s.link.drive
  refine ⟨?_, ?_, ?_, ?_, ?_⟩
  all_goals simp only [countP_append_singleton, length_filterMap_append_singleton, List.map_append,
    List.map_cons, List.map_nil, cache_next]
  · rw [← hacks, hacked]
  · rw [← hreads, Cache.counters_next, Cache.busResponse]
    cases s.cache.state with
    | check =>
        rw [Cache.reads_countCheck]
        cases s.cache.acks bus <;> rfl
    | evict p => rfl
    | refill p => rfl
  · rw [← hstall, Cache.counters_next]
    cases s.cache.state <;> rfl
  · rw [← hevictions, Cache.counters_next]
    cases hs : s.cache.state with
    | check => simp [Cache.countCheck, transfers, Cache.resolve_of_check hs]
    | evict p => rfl
    | refill p => rfl
  · rw [← hrefills, Cache.counters_next]
    cases hs : s.cache.state with
    | check => simp [Cache.countCheck, transfers, Cache.resolve_of_check hs]
    | evict p => rfl
    | refill p => rfl

/-- The cache counts the cycles that the simulator counts. -/
theorem Trace.cycles_eq {start s : Simulator S} {cycles : List (Cycle S)} (h : Trace start cycles s)
    (hstart : start.cache.counters.cycles = start.cycle) : s.cache.counters.cycles = s.cycle := by
  refine h.invariant (P := fun s => s.cache.counters.cycles = s.cycle) hstart fun s bus hs => ?_
  rw [cycle_next, ← hs, cache_next, Cache.counters_next]
  cases s.cache.state <;> rfl

/-- The counters tally with the cycles of a run. -/
theorem Trace.tally {start s : Simulator S} {cycles : List (Cycle S)} (h : Trace start cycles s)
    (hstart : Tally (S := S) [] start.cache.counters) : Tally cycles s.cache.counters := by
  induction h with
  | nil => exact hstart
  | snoc _ hstep ih =>
      obtain ⟨_, _, rfl, rfl⟩ := run_tick_eq_ok.mp hstep
      exact ih.next ..

end Tally

/-! ## The balance within the cache -/

variable {L : Type}

/-- Misses are refills or still waited for; evictions and retries belong to misses; blocks are whole. -/
structure Balanced (s : Simulator (MemoryStore L)) : Prop where
  inStep : s.InStep
  misses_eq : s.cache.counters.misses = s.cache.counters.refills + s.cache.state.outstanding
  evictions_le : s.cache.counters.evictions ≤ s.cache.counters.refills + s.cache.state.written
  bytesWritten_eq :
    s.cache.counters.bytesWritten = s.cache.counters.evictions * s.cache.geometry.lineBytes
  bytesRead_eq : s.cache.counters.bytesRead = s.cache.counters.refills * s.cache.geometry.lineBytes
  retries_le : s.cache.counters.readRetries + s.cache.counters.writeRetries + s.cache.retrying.toNat ≤
    s.cache.counters.misses

variable [LatencyModel L] {s : Simulator (MemoryStore L)}

/-- An eviction writes the whole line that the read registers hold. -/
theorem write_eq_of_evict {p : Progress} (hs : s.cache.state = .evict p) :
    ∀ beat ∈ s.transfers.write, beat = s.cache.evictBeat := by
  intro beat hbeat
  simp only [transfers, Transfers.resolve, Cache.linkRequest, hs, Cache.evictRequest] at hbeat
  grind [Cache.evictBeat]

/-- A refill reads a whole block. -/
theorem InStep.length_read (h : s.InStep) {p : Progress} (hs : s.cache.state = .refill p) :
    ∀ {block}, s.transfers.read = some block → block.length = s.cache.geometry.lineBytes := by
  intro block hblock
  obtain ⟨_, _, hnone | ⟨_, hsome⟩⟩ := MemoryStore.clock_refill h.serves hs
  · cases hblock.symm.trans hnone
  · cases hblock.symm.trans hsome
    exact h.fits.length_readBlock _

/-- A cycle that serves requests keeps the balance. -/
theorem Balanced.next_check (h : s.Balanced) (hs : s.cache.state = .check) (bus : Bus.Request) :
    (s.next bus).Balanced := by
  obtain ⟨hstep, hmisses, hevictions, hwritten, hread, hretries⟩ := h
  have hedge : (s.next bus).cache = s.cache.checkEdge bus := Cache.next_check hs bus _
  have hcounters : (s.cache.checkEdge bus).counters = s.cache.countCheck bus := rfl
  have hcount : (s.cache.countCheck bus).misses = s.cache.counters.misses + (s.cache.misses bus).toNat := rfl
  rw [hs] at hmisses hevictions
  refine ⟨hstep.next bus, ?_, ?_, ?_, ?_, ?_⟩ <;> rw [hedge, hcounters]
  · rw [Cache.outstanding_checkEdge, hcount, hmisses]
    rfl
  · exact Nat.le_trans hevictions (Nat.le_add_right ..)
  · exact hwritten
  · exact hread
  · rw [s.cache.retries_countCheck, Cache.retrying_checkEdge, hcount]
    cases hacks : s.cache.acks bus with
    | true =>
        rw [s.cache.misses_eq_false_of_acks bus hacks, Bool.true_and, Bool.not_true, Bool.and_false]
        exact hretries
    | false =>
        rw [Bool.false_and, Bool.not_false, Bool.and_true]
        cases s.cache.misses bus with
        | true => exact Nat.succ_le_succ (Nat.le_trans (Nat.le_add_right _ _) hretries)
        | false => exact hretries

/-- A cycle of an eviction keeps the balance. -/
theorem Balanced.next_evict (h : s.Balanced) {p : Progress} (hs : s.cache.state = .evict p)
    (bus : Bus.Request) : (s.next bus).Balanced := by
  obtain ⟨hstep, hmisses, hevictions, hwritten, hread, hretries⟩ := h
  have hedge : (s.next bus).cache = s.cache.evictEdge p s.transfers := Cache.next_evict hs bus _
  have hcounters : (s.cache.evictEdge p s.transfers).counters = s.cache.countStall s.transfers := rfl
  have hnone : s.transfers.read = none := Cache.resolve_evict hs _
  have hrefills : (s.cache.countStall s.transfers).refills = s.cache.counters.refills := by
    rw [Cache.countStall, hnone]
    rfl
  have hcount : (s.cache.countStall s.transfers).evictions =
      s.cache.counters.evictions + s.transfers.write.isSome.toNat := rfl
  rw [hs] at hmisses hevictions
  refine ⟨hstep.next bus, ?_, ?_, ?_, ?_, ?_⟩ <;> rw [hedge, hcounters]
  · rw [Cache.outstanding_evictEdge, hrefills]
    exact hmisses
  · rw [Cache.written_evictEdge _ (write_isSome_of_evict hs), hcount, hrefills, ← Nat.add_assoc]
    exact Nat.add_le_add_right hevictions _
  · rw [Cache.geometry_evictEdge]
    cases hwrite : s.transfers.write with
    | none => simpa [Cache.countStall, hwrite] using hwritten
    | some beat =>
        have hbeat : Cache.enabledBytes beat = s.cache.geometry.lineBytes := by
          rw [write_eq_of_evict hs beat hwrite, Cache.enabledBytes_evictBeat]
        simp [Cache.countStall, hwrite, hbeat, hwritten, Nat.succ_mul]
  · simpa [Cache.countStall, hnone] using hread
  · exact hretries

/-- A cycle of a refill keeps the balance. -/
theorem Balanced.next_refill (h : s.Balanced) {p : Progress} (hs : s.cache.state = .refill p)
    (bus : Bus.Request) : (s.next bus).Balanced := by
  obtain ⟨hstep, hmisses, hevictions, hwritten, hread, hretries⟩ := h
  have hedge : (s.next bus).cache = s.cache.refillEdge p s.transfers := Cache.next_refill hs bus _
  have hcounters : (s.cache.refillEdge p s.transfers).counters = s.cache.countStall s.transfers := rfl
  have hnone : s.transfers.write = none := Cache.resolve_refill hs _
  have hrefills : (s.cache.countStall s.transfers).refills =
      s.cache.counters.refills + s.transfers.read.isSome.toNat := rfl
  have hcount : (s.cache.countStall s.transfers).evictions = s.cache.counters.evictions := by
    rw [Cache.countStall, hnone]
    rfl
  have hstate := s.cache.outstanding_refillEdge (read_isSome_of_refill hs)
  rw [hs] at hmisses hevictions
  refine ⟨hstep.next bus, ?_, ?_, ?_, ?_, ?_⟩ <;> rw [hedge, hcounters]
  · have hkept : (s.cache.countStall s.transfers).misses = _ := hmisses
    rw [hkept, hrefills, Cache.State.outstanding]
    omega
  · have hle : s.cache.counters.evictions ≤ s.cache.counters.refills + (!p.beat).toNat := hevictions
    rw [Cache.written_refillEdge, hrefills, hcount]
    omega
  · simpa [Cache.countStall, hnone] using hwritten
  · rw [Cache.geometry_refillEdge]
    cases hr : s.transfers.read with
    | none => simpa [Cache.countStall, hr] using hread
    | some block =>
        have hblock : block.length = s.cache.geometry.lineBytes := hstep.length_read hs hr
        simp [Cache.countStall, hr, hblock, hread, Nat.succ_mul]
  · rw [Cache.retrying_refillEdge]
    exact hretries

/-- **The counters stay balanced**: one cycle with any request on the bus. -/
theorem Balanced.next (h : s.Balanced) (bus : Bus.Request) : (s.next bus).Balanced := by
  cases hs : s.cache.state with
  | check => exact h.next_check hs bus
  | evict p => exact h.next_evict hs bus
  | refill p => exact h.next_refill hs bus

end Simulator

/-! ## Computations -/

namespace Simulator

section Reach

variable {S : Type} [BackingStore S]

/-- Every cycle keeps `I` or fails with `E`, and a beat that is given up fails with `E`. -/
structure Carried (I : Simulator S → Prop) (E : RunError → Simulator S → Prop) : Prop where
  tick : ∀ s bus, I s → Ends (Simulator.tick bus) s (fun _ s' => I s') E
  giveUp : ∀ s addr cycles, I s → E (.timeout addr cycles) s

namespace Carried

variable {I : Simulator S → Prop} {E : RunError → Simulator S → Prop} {s : Simulator S}

/-- What every cycle carries on is carried through idle cycles. -/
theorem idle (h : Carried I E) (hs : I s) (n : Nat) : Ends (Simulator.idle n) s (fun _ s' => I s') E := by
  induction n generalizing s with
  | zero => exact ends_pure hs
  | succ n ih => exact (h.tick s .idle hs).bind (fun _ _ => id) fun _ _ _ hs' => ih hs'

/-- It is carried on while a request is held. -/
theorem hold (h : Carried I E) (hs : I s) (i : Initiator) (r : Bus.Request) (tries : Nat) :
    Ends (i.hold r tries) s (fun _ s' => I s') E := by
  induction tries generalizing s with
  | zero => exact ends_throw (h.giveUp s _ _ hs)
  | succ tries ih =>
      refine (h.tick s r hs).bind (fun _ _ => id) fun response s' _ hs' => ?_
      cases response.ack with
      | true => exact ends_pure hs'
      | false => exact ih hs'

/-- It is carried through the beats of a transaction. -/
theorem mapM_beat (h : Carried I E) (hs : I s) (i : Initiator) (requests : List Bus.Request) :
    Ends (requests.mapM i.beat) s (fun _ s' => I s') E :=
  ends_mapM (fun r _ _ hs => h.hold hs i r _) hs

/-- It is carried through a transaction. -/
theorem execute (h : Carried I E) (hs : I s) (i : Initiator) (t : Transaction) :
    Ends (i.execute t) s (fun _ s' => I s') E := by
  rw [i.execute_eq]
  refine (h.mapM_beat hs i _).bind (fun _ _ => id) fun _ s' _ hs' => ?_
  exact (h.idle hs' _).bind (fun _ _ => id) fun _ _ _ hs'' => ends_pure hs''

end Carried

/-- A run leads from one simulator to the other. -/
def Reaches (start s : Simulator S) : Prop := ∃ cycles, Trace start cycles s

variable {start s : Simulator S}

/-- Cycles that succeed are those of a run. -/
theorem carried_reaches (start : Simulator S) : Carried (Reaches start) fun _ _ => True where
  tick s bus h := by
    rw [Ends]
    cases hrun : (tick bus).run s with
    | ok response s' =>
        obtain ⟨cycles, ht⟩ := h
        exact ⟨_, ht.snoc hrun⟩
    | error e s' => trivial
  giveUp _ _ _ _ := trivial

/-- Transactions that succeed are made of cycles that succeed. -/
theorem reaches_runFrom (h : Reaches start s) (i : Initiator) (shadow : ShadowMemory) (seen : List Nat)
    (transactions : List Transaction) :
    Ends (runFrom i shadow seen transactions) s (fun _ s' => Reaches start s') fun _ _ => True := by
  induction transactions generalizing s shadow seen with
  | nil => exact ends_pure h
  | cons t transactions ih =>
      rw [runFrom]
      refine ((carried_reaches start).execute h i t).bind (fun _ _ => id) fun observed s' _ hs' => ?_
      cases shadow.check t observed with
      | error e => exact ends_throw trivial
      | ok shadow => exact ih hs' shadow _

end Reach

variable {L : Type} [LatencyModel L] {s : Simulator (MemoryStore L)} {u : Untimed}

/-- Transactions that succeed do what the untimed cache does on their beats. -/
theorem refines_runFrom (i : Initiator) (h : Rests i.geometry u s) (shadow : ShadowMemory) (seen : List Nat)
    (transactions : List Transaction) :
    Ends (runFrom i shadow seen transactions) s
      (fun _ s' => Rests i.geometry
        (u.run i.geometry (transactions.flatMap (·.toBeats i.geometry))).2 s')
      fun _ _ => True := by
  induction transactions generalizing s u shadow seen with
  | nil => exact ends_pure h
  | cons t transactions ih =>
      rw [runFrom, List.flatMap_cons, Untimed.run_append]
      refine Ends.bind (D := fun e _ => e.IsLimit) (i.refines_execute h t) (fun _ _ _ => trivial)
        fun observed s' _ hrests => ?_
      cases shadow.check t observed with
      | error e => exact ends_throw trivial
      | ok shadow => exact ih hrests.1 shadow _

end Simulator

/-! ## What the beats of some transactions count -/

namespace Untimed

/-- Every miss has been followed by its retry. -/
def Settled (u : Untimed) : Prop := u.counters.misses = u.counters.readRetries + u.counters.writeRetries

variable {g : Geometry} {u : Untimed}

/-- Bringing a block in counts a miss, unless it is there, and no beat. -/
theorem counters_fetch (a : Address) :
    (u.fetch g a).counters.acks = u.counters.acks ∧
      (u.fetch g a).counters.readRetries = u.counters.readRetries ∧
      (u.fetch g a).counters.writeRetries = u.counters.writeRetries ∧
      (u.fetch g a).counters.misses = u.counters.misses + (!u.holds a).toNat := by
  cases hholds : u.holds a with
  | true => simp [fetch_of_holds hholds]
  | false =>
      rw [fetch_of_not_holds hholds, makeRoom]
      split <;> exact ⟨rfl, rfl, rfl, rfl⟩

/-- A beat is counted once. -/
theorem acks_step (beat : Beat) : (u.step g beat).2.counters.acks = u.counters.acks + 1 := by
  obtain ⟨hacks, _⟩ := u.counters_fetch (g := g) (g.layout.split beat.adr)
  rw [← hacks, step, counters_perform]
  cases beat.we <;> cases u.holds (g.layout.split beat.adr) <;>
    simp [Counters.countBeat, Counters.acks] <;> omega

/-- A beat that misses is counted as a retry. -/
theorem Settled.step (h : u.Settled) (beat : Beat) : (u.step g beat).2.Settled := by
  obtain ⟨_, hread, hwrite, hmisses⟩ := u.counters_fetch (g := g) (g.layout.split beat.adr)
  rw [Settled] at h
  rw [Settled, Untimed.step, counters_perform]
  cases beat.we <;> cases hholds : u.holds (g.layout.split beat.adr) <;>
    simp_all [Counters.countBeat] <;> omega

/-- The untimed cache acknowledges every beat. -/
theorem counters_run (h : u.Settled) (beats : List Beat) :
    (u.run g beats).2.counters.acks = u.counters.acks + beats.length ∧ (u.run g beats).2.Settled := by
  induction beats generalizing u with
  | nil => exact ⟨rfl, h⟩
  | cons beat beats ih =>
      obtain ⟨hacks, hsettled⟩ := ih (h.step (g := g) beat)
      rw [run_cons]
      refine ⟨?_, hsettled⟩
      rw [hacks, acks_step, List.length_cons]
      omega

end Untimed

/-! ## From a cold cache on -/

theorem MemoryStore.served_preload {L : Type} (m : MemoryStore L) (writes : List (Nat × Block × Nat)) :
    (m.preload writes).reads = m.reads ∧ (m.preload writes).writes = m.writes := by
  induction writes generalizing m with
  | nil => exact ⟨rfl, rfl⟩
  | cons w writes ih => exact ih (m.writeBlock ..)

namespace Simulator

variable {L : Type} {config : Config} {g : Geometry}

/-- At first the log is empty and the store is what it starts from. -/
theorem agrees_ofContents (config : Config) (g : Geometry) (latency : L)
    (contents : List (Nat × Block × Nat)) :
    MonitoredStore.Agrees (ofContents config g latency contents).link.store []
      (ofContents config g latency contents).link :=
  have hserved := MemoryStore.served_preload (.empty config.backing latency) contents
  MonitoredStore.agrees_fresh (MemoryStore.pending_preload _ contents) hserved.1 hserved.2

/-- A fresh simulator is balanced. -/
theorem balanced_ofContents (hg : Geometry.ofConfig config.cache config.backing = .ok g) (latency : L)
    (contents : List (Nat × Block × Nat)) : (ofContents config g latency contents).Balanced where
  inStep := (rests_ofContents hg latency contents).inStep
  misses_eq := rfl
  evictions_le := Nat.le_refl 0
  bytesWritten_eq := (Nat.zero_mul _).symm
  bytesRead_eq := (Nat.zero_mul _).symm
  retries_le := Nat.le_refl 0

variable [LatencyModel L]

/-- Wherever a run leads, the store and the monitor give the same account of the edges of the run. -/
theorem Trace.agrees {start s : Simulator (MemoryStore L)} {cycles : List (Cycle (MemoryStore L))}
    {m : MemoryStore L} (h : Trace start cycles s) (hstart : MonitoredStore.Agrees m [] start.link) :
    MonitoredStore.Agrees m (cycles.map fun c => c.before.transfers) s.link := by
  induction h with
  | nil => exact hstart
  | @snoc cycles s s' bus response ht hstep ih =>
      obtain ⟨_, hok, _, rfl⟩ := run_tick_eq_ok.mp hstep
      have hcommit : s.link.commit s.cache.linkRequest s.link.drive = (.ok s.transfers, (s.next bus).link) :=
        MonitoredStore.commit_eq_ok.mpr ⟨hok, rfl, rfl⟩
      rw [List.map_append]
      exact ih.step (MonitoredStore.step_of_commit ih.command_eq ih.write_eq ih.read_eq hcommit)

/-- **The counters are conserved**, for every configuration, latency model and content of the store. After
every cycle of every run, with any requests on the bus:

* the counts of cycles, acknowledgements, acknowledged reads and stalled cycles are those of the run;
* the misses are the refills, and one more while the block of a miss has not come yet;
* the evictions are the writes in the log and those that the store served, the refills the reads, and a whole
  line was moved by each;
* there are no more evictions than misses, and no more retries.

When some transactions all succeed, their beats are the acknowledgements, and the misses are the retries. -/
theorem counters_conserved (hg : Geometry.ofConfig config.cache config.backing = .ok g) (latency : L)
    (contents : List (Nat × Block × Nat)) :
    (∀ cycles s, Trace (ofContents config g latency contents) cycles s →
      let n := s.cache.counters
      n.cycles = s.cycle ∧
        n.acks = (cycles.countP fun c => c.response.ack) ∧
        n.readHits + n.readRetries = (cycles.countP fun c => c.response.ack && !c.bus.we) ∧
        n.stallCycles = (cycles.countP fun c => c.before.cache.state.isStalled) ∧
        n.misses = n.refills + s.cache.state.outstanding ∧
        (n.evictions = s.link.monitor.writes.size ∧ n.evictions = s.link.store.writes) ∧
        (n.refills = s.link.monitor.reads.size ∧ n.refills = s.link.store.reads) ∧
        n.evictions ≤ n.misses ∧
        (n.bytesWritten = n.evictions * g.lineBytes ∧ n.bytesRead = n.refills * g.lineBytes) ∧
        n.readRetries + n.writeRetries ≤ n.misses) ∧
    ∀ transactions reads s,
      (runTransactions transactions).run (ofContents config g latency contents) = .ok reads s →
      let n := s.cache.counters
      let beats := (transactions.map Transaction.beats).sum
      (∃ cycles, Trace (ofContents config g latency contents) cycles s) ∧
        n.acks = beats ∧ n.misses = n.readRetries + n.writeRetries ∧ n.hits + n.misses = beats := by
  have hsum (transactions : List Transaction) :
      (transactions.flatMap (·.toBeats g)).length = (transactions.map Transaction.beats).sum := by
    simp [List.length_flatMap]
  refine ⟨fun cycles s h => ?_, fun transactions reads s h => ?_⟩
  · obtain ⟨hacks, hreads, hstall, hevictions, hrefills⟩ := h.tally ⟨rfl, rfl, rfl, rfl, rfl⟩
    have hagrees := h.agrees (agrees_ofContents config g latency contents)
    have hbalanced := h.invariant (balanced_ofContents hg latency contents) fun _ bus hs => hs.next bus
    have hgeometry : s.cache.geometry = g := h.geometry_eq
    have hlogged : s.cache.counters.evictions = s.link.monitor.writes.size := by
      rw [hevictions, hagrees.writeBeats_eq, List.length_map, Array.length_toList]
    have hfetched : s.cache.counters.refills = s.link.monitor.reads.size := by
      rw [hrefills, hagrees.readBeats_eq, List.length_map, Array.length_toList]
    obtain ⟨_, hmisses, hle, hwritten, hread, hretries⟩ := hbalanced
    rw [hgeometry] at hwritten hread
    have hstate := s.cache.state.written_le_outstanding
    exact ⟨h.cycles_eq rfl, hacks, hreads, hstall, hmisses, ⟨hlogged, hlogged.trans hagrees.writes_eq.symm⟩,
      ⟨hfetched, hfetched.trans hagrees.reads_eq.symm⟩, by omega, ⟨hwritten, hread⟩, by omega⟩
  · have hreaches : Ends (runTransactions transactions) (ofContents config g latency contents)
        (fun _ s' => Reaches (ofContents config g latency contents) s') fun _ _ => True :=
      reaches_runFrom ⟨[], .nil⟩ ⟨g, _⟩ { geometry := g } [] transactions
    have hrefines : Ends (runTransactions transactions) (ofContents config g latency contents)
        (fun _ s' => Rests g (Untimed.run g (.cold g (MemoryStore.preloaded config.backing contents))
          (transactions.flatMap (·.toBeats g))).2 s') fun _ _ => True :=
      refines_runFrom ⟨g, _⟩ (rests_ofContents hg latency contents) { geometry := g } [] transactions
    rw [Ends, h] at hreaches hrefines
    have hcold : (Untimed.cold g (MemoryStore.preloaded config.backing contents)).Settled := rfl
    obtain ⟨hacks, hsettled⟩ := Untimed.counters_run (g := g) hcold (transactions.flatMap (·.toBeats g))
    rw [Untimed.Settled, ← hrefines.shows.counters] at hsettled
    rw [← hrefines.shows.counters, hsum] at hacks
    have hbeats : s.cache.counters.acks = (transactions.map Transaction.beats).sum :=
      hacks.trans (Nat.zero_add _)
    have hmisses : s.cache.counters.misses =
        s.cache.counters.readRetries + s.cache.counters.writeRetries := hsettled
    refine ⟨hreaches, hbeats, hmisses, ?_⟩
    rw [← hbeats, hmisses, Counters.hits, Counters.acks]
    omega

/-- A write, a read that drives its line out, and a burst that fetches it again. -/
theorem counters_conserved_tiny :
    ∃ reads s, (runTransactions [.write 1 0xabcd 1, .read 4, .burstRead 0 .linear 2]).run
        (ofContents tinyConfig tiny (Timing.fixed 1) []) = .ok reads s ∧
      s.cache.counters.acks = 4 ∧
      s.cache.counters.misses = s.cache.counters.readRetries + s.cache.counters.writeRetries ∧
      s.cache.counters.evictions = s.link.store.writes ∧
      s.cache.counters.bytesRead = s.link.store.reads * 4 := by
  have hok : ((runTransactions [.write 1 0xabcd 1, .read 4, .burstRead 0 .linear 2]).run'
      (ofContents tinyConfig tiny (Timing.fixed 1) [])).isSome = true := by
    decide +kernel
  obtain ⟨hrun, htotal⟩ := counters_conserved ofConfig_tinyConfig (Timing.fixed 1) []
  cases hresult : (runTransactions [.write 1 0xabcd 1, .read 4, .burstRead 0 .linear 2]).run
      (ofContents tinyConfig tiny (Timing.fixed 1) []) with
  | ok reads s =>
      obtain ⟨⟨cycles, ht⟩, hacks, hmisses, _⟩ := htotal _ reads s hresult
      obtain ⟨_, _, _, _, _, ⟨_, hwrites⟩, ⟨_, hreads⟩, _, ⟨_, hbytes⟩, _⟩ := hrun cycles s ht
      exact ⟨reads, s, rfl, hacks, hmisses, hwrites, by rw [hbytes, hreads]; rfl⟩
  | error e s =>
      delta EStateM.run' at hok
      rw [hresult] at hok
      cases hok

end Simulator

end WriteBack
