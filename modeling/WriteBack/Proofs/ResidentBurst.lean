import Mathlib.Data.List.Chain
import WriteBack.Proofs.AckLatency
import WriteBack.Proofs.Conservation
import WriteBack.Proofs.Freshness

/-!
# WriteBack.Proofs.ResidentBurst

A burst over blocks that are all in the cache runs at one beat per cycle. As a beat is acknowledged the cache
loads the line of the beat after it, and the address that it works out for that is the one that the initiator
goes on with (`isChain_requests`). So the next beat finds its line in the read registers (`acks_checkEdge`), and
the one cycle that a burst waits is that in which its first line is read (`resident_burst_streams`).
-/

namespace WriteBack

open Link

/-! ## The beats of a burst -/

/-- The second request is the beat that the first one announces. -/
structure Bus.Request.Announces (mask : Nat) (r r' : Bus.Request) : Prop where
  cti_eq : r.cti = .increment
  adr_eq : r'.adr = r.bte.next mask r.adr

/-- Requests with the addresses and the cycle types of a burst announce one another. -/
theorem isChain_of_burst {mask : Nat} (kind : BurstKind) (adr n : Nat) {requests : List Bus.Request}
    (hbte : ∀ r ∈ requests, r.bte = kind)
    (hbeats : requests.map (fun r => (r.adr, r.cti)) =
      (kind.addressesFrom mask adr n).zip (CycleType.ofBeats n)) :
    requests.IsChain (Bus.Request.Announces mask) := by
  induction n generalizing adr requests with
  | zero =>
      rw [List.map_eq_nil_iff.mp hbeats]
      exact .nil
  | succ n ih =>
      match requests, n with
      | [], _ => exact .nil
      | [r], _ => exact .singleton r
      | r :: r' :: rest, 0 => cases (List.cons.inj hbeats).2
      | r :: r' :: rest, n + 1 =>
          obtain ⟨hr, hrest⟩ := List.cons.inj hbeats
          obtain ⟨hadr, hcti⟩ := Prod.mk.inj hr
          have hadr' : r'.adr = kind.next mask adr := by
            cases n <;> exact (Prod.mk.inj (List.cons.inj hrest).1).1
          obtain ⟨hkind, hbte⟩ := List.forall_mem_cons.mp hbte
          refine List.isChain_cons_cons.mpr ⟨⟨hcti, ?_⟩, ih _ hbte hrest⟩
          rw [hadr', hkind, hadr]

namespace Initiator

/-- **The beats of a transaction** announce one another. -/
theorem isChain_requests (i : Initiator) (t : Transaction) :
    (i.requests t).IsChain (Bus.Request.Announces i.geometry.layout.addrMask) := by
  cases t with
  | read adr => exact .singleton _
  | write adr data sel => exact .singleton _
  | burstRead adr kind n =>
      refine isChain_of_burst kind (adr &&& i.geometry.layout.addrMask) n ?_ ?_
      · intro r hr
        rw [requests, readBeats, ← List.map_uncurry_zip_eq_zipWith] at hr
        obtain ⟨_, _, rfl⟩ := List.mem_map.mp hr
        rfl
      · rw [requests, readBeats, List.map_zipWith]
        rfl
  | burstWrite adr kind data =>
      refine isChain_of_burst kind (adr &&& i.geometry.layout.addrMask) data.length ?_ ?_
      · intro r hr
        rw [requests, writeBeats, ← List.map_uncurry_zip_eq_zipWith] at hr
        obtain ⟨_, _, rfl⟩ := List.mem_map.mp hr
        rfl
      · rw [requests, writeBeats, List.map_zipWith]
        have hfst : ((((kind.addresses i.geometry.layout.addrMask adr data.length).zip
            (CycleType.ofBeats data.length)).zip data).map Prod.fst) = _ := List.map_fst_zip (by simp)
        rw [← List.map_uncurry_zip_eq_zipWith]
        exact hfst

end Initiator

/-! ## The lookups of a burst -/

namespace Cache

/-- The line of a word address holds its block. -/
def Resident (c : Cache) (adr : Nat) : Prop :=
  ∃ l, c.line? (c.geometry.layout.split adr).line = some l ∧ l.tag = (c.geometry.layout.split adr).tag

instance (c : Cache) (adr : Nat) : Decidable (c.Resident adr) :=
  decidable_of_iff
    ((c.line? (c.geometry.layout.split adr).line).map Line.tag = some (c.geometry.layout.split adr).tag)
    Option.map_eq_some_iff

variable {c : Cache} {r r' : Bus.Request}

/-- Serving requests drives no block out. -/
theorem Valid.resident_checkEdge (hv : c.Valid) (hs : c.state = .check) (bus : Bus.Request) {adr : Nat}
    (h : c.Resident adr) : (c.checkEdge bus).Resident adr := by
  obtain ⟨l, hl, htag⟩ := h
  obtain ⟨l', hl', hkept⟩ := hv.tag_checkEdge hs bus hl
  exact ⟨l', hl', hkept.trans htag⟩

/-- **The next beat hits**: its line is the one that the acknowledgement of this beat loads. If this beat writes to
that line, the copy that it leaves is stale, but it has the tag, and then the next beat writes as well. -/
theorem acks_checkEdge (h : c.acks r = true) (hnext : r.Announces c.geometry.layout.addrMask r')
    (hactive : r'.isActive = true) (hwe : r'.we = r.we) (hresident : c.Resident r'.adr) :
    (c.checkEdge r).acks r' = true := by
  obtain ⟨l, hl, htag⟩ := hresident
  have hmiss := c.misses_eq_false_of_acks r h
  have hpresented := ((c.acks_iff r).mp h).1.1
  have hloads := c.loads_of_isActive r hpresented hmiss
  have hline : c.loadLine r = (c.geometry.layout.split r'.adr).line := by
    rw [loadLine, h, hnext.cti_eq, nextBeat, ← hnext.adr_eq]
    rfl
  have hloaded : (c.checkEdge r).loaded = l := loaded_checkEdge_of_loads hloads (hline ▸ hl)
  have hsampled : (c.checkEdge r).sampled.isActive = true := by
    show (if c.misses r then _ else _ : Sampled).isActive = true
    rw [hmiss]
    exact hpresented
  have hloadedLine : (c.checkEdge r).loadedLine = c.loadLine r := by
    show (if c.loads r then _ else _) = _
    rw [hloads, if_pos rfl]
  have hstale : (c.checkEdge r).stale = c.writesLine r (c.loadLine r) := by
    show (if c.loads r then _ else _) = _
    rw [hloads, if_pos rfl]
  refine ((c.checkEdge r).acks_iff r').mpr ⟨⟨hactive, hsampled⟩, hloadedLine.trans hline, ?_, ?_⟩
  · exact (congrArg Line.tag hloaded).trans htag
  · rw [hstale, hwe]
    cases hw : c.writesLine r (c.loadLine r) with
    | false => exact .inl rfl
    | true => exact .inr ((c.writesLine_iff r _).mp hw).2.1

/-- Some requests are the beats of a burst over blocks that are in the cache. -/
structure Walks (c : Cache) (we : Bool) (requests : List Bus.Request) : Prop where
  chain : requests.IsChain (Bus.Request.Announces c.geometry.layout.addrMask)
  active : ∀ r ∈ requests, r.isActive = true
  we_eq : ∀ r ∈ requests, r.we = we
  resident : ∀ r ∈ requests, c.Resident r.adr

/-- The first requests of a walk are a walk. -/
theorem Walks.take {we : Bool} {requests : List Bus.Request} (h : c.Walks we requests) (n : Nat) :
    c.Walks we (requests.take n) where
  chain := h.chain.take n
  active r hr := h.active r (List.mem_of_mem_take hr)
  we_eq r hr := h.we_eq r (List.mem_of_mem_take hr)
  resident r hr := h.resident r (List.mem_of_mem_take hr)

/-- A cycle that serves requests, whichever it is, drives none of the blocks out. -/
theorem Walks.checkEdge {we : Bool} {requests : List Bus.Request} (h : c.Walks we requests) (hv : c.Valid)
    (hs : c.state = .check) (bus : Bus.Request) : (c.checkEdge bus).Walks we requests where
  chain := h.chain
  active := h.active
  we_eq := h.we_eq
  resident r hr := hv.resident_checkEdge hs bus (h.resident r hr)

/-- So are all but the first. -/
theorem Walks.of_cons {we : Bool} {requests : List Bus.Request} (h : c.Walks we (r :: requests)) :
    c.Walks we requests where
  chain := h.chain.of_cons
  active r' hr' := h.active r' (List.mem_cons_of_mem _ hr')
  we_eq r' hr' := h.we_eq r' (List.mem_cons_of_mem _ hr')
  resident r' hr' := h.resident r' (List.mem_cons_of_mem _ hr')

/-- The first of the beats hits in this cycle. -/
structure Streams (c : Cache) (we : Bool) (requests : List Bus.Request) : Prop
    extends c.Walks we requests where
  hits : ∀ r ∈ requests.head?, c.acks r = true

/-- The first beat is acknowledged, and the others stream. -/
theorem Streams.checkEdge {we : Bool} {requests : List Bus.Request} (h : c.Streams we (r :: requests))
    (hv : c.Valid) (hs : c.state = .check) : (c.checkEdge r).Streams we requests where
  toWalks := h.toWalks.of_cons.checkEdge hv hs r
  hits r' hr' := by
    obtain ⟨rest, rfl⟩ : ∃ rest, requests = r' :: rest := List.head?_eq_some_iff.mp hr'
    have hr'mem : r' ∈ r :: r' :: rest := List.mem_cons_of_mem _ List.mem_cons_self
    have hwe : r'.we = r.we := (h.we_eq r' hr'mem).trans (h.we_eq r List.mem_cons_self).symm
    exact acks_checkEdge (h.hits r rfl) (List.isChain_cons_cons.mp h.chain).1 (h.active r' hr'mem) hwe
      (h.resident r' hr'mem)

end Cache

/-! ## What a burst counts -/

/-- The counters after `cycles` cycles in which nothing happens except that `beats` beats hit. -/
def Counters.countHits (n : Counters) (we : Bool) (beats cycles : Nat) : Counters :=
  { n with
    cycles := n.cycles + cycles
    readHits := n.readHits + if we then 0 else beats
    writeHits := n.writeHits + if we then beats else 0 }

theorem Counters.countHits_countHits (n : Counters) (we : Bool) (beats beats' cycles cycles' : Nat) :
    (n.countHits we beats cycles).countHits we beats' cycles' =
      n.countHits we (beats + beats') (cycles + cycles') := by
  cases we <;> simp [countHits, Nat.add_assoc]

namespace Cache

variable {c : Cache} {r : Bus.Request}

/-- A beat that hits at the first try counts as a hit. -/
theorem countCheck_of_acks (h : c.acks r = true) (hretry : c.retrying = false) :
    c.countCheck r = c.counters.countHits r.we 1 1 := by
  have hmiss := c.misses_eq_false_of_acks r h
  cases hwe : r.we <;> simp [countCheck, Counters.countHits, rereads, h, hmiss, hretry, hwe]

/-- Where nothing is looked up nothing but the cycle counts. -/
theorem countCheck_of_not_compares (h : (r.isActive && c.sampled.isActive) = false) (we : Bool) :
    c.countCheck r = c.counters.countHits we 0 1 := by
  have hacks : c.acks r = false := by simp [acks, compares, h]
  have hmiss : c.misses r = false := by simp [misses, compares, h]
  have hreread : c.rereads r = false := by
    rw [Bool.and_eq_false_iff] at h
    rcases h with h | h <;> simp [rereads, loads, h]
  simp [countCheck, Counters.countHits, hacks, hmiss, hreread]

end Cache

/-! ## Cycles without a stall -/

namespace Simulator

variable {L : Type} {g : Geometry} {u : Untimed} {s s' : Simulator (MemoryStore L)} {r : Bus.Request}

/-- The cache serves requests, and no beat waits for a retry. -/
structure Free (s : Simulator (MemoryStore L)) : Prop where
  inStep : s.InStep
  state_eq : s.cache.state = .check
  first_try : s.cache.retrying = false

variable [LatencyModel L]

/-- Without a miss, the cache stays free. -/
theorem Free.next (h : s.Free) {bus : Bus.Request} (hmiss : s.cache.misses bus = false) :
    (s.next bus).Free where
  inStep := h.inStep.next bus
  state_eq := by
    rw [cache_next, Cache.next_check h.state_eq, Cache.state_checkEdge, hmiss]
    rfl
  first_try := by
    rw [cache_next, Cache.next_check h.state_eq, Cache.retrying_checkEdge, hmiss, h.first_try]
    rfl

/-- A free simulator takes a cycle if the budget allows it. -/
theorem Free.run_tick (h : s.Free) (bus : Bus.Request) (hb : s.cycle < s.maxCycles) :
    (tick bus).run s = .ok (s.cache.busResponse bus) (s.next bus) := by
  rw [run_tick_of_watches h.inStep.watches, if_neg (by omega)]

/-- Some cycles of a run in which the cache serves requests throughout, nothing is offered to the store, and the
counters change by hits and cycles alone. -/
structure Unstalled (we : Bool) (s : Simulator (MemoryStore L)) (cycles : List (Cycle (MemoryStore L)))
    (s' : Simulator (MemoryStore L)) : Prop where
  trace : Trace s cycles s'
  free : s'.Free
  silent : ∀ c ∈ cycles, c.before.cache.linkRequest = {}
  counters_eq : s'.cache.counters =
    s.cache.counters.countHits we (cycles.countP fun c => c.response.ack) cycles.length

theorem Unstalled.append {we : Bool} {xs ys : List (Cycle (MemoryStore L))} {middle : Simulator (MemoryStore L)}
    (h : Unstalled we s xs middle) (h' : Unstalled we middle ys s') : Unstalled we s (xs ++ ys) s' where
  trace := h.trace.append h'.trace
  free := h'.free
  silent := List.forall_mem_append.mpr ⟨h.silent, h'.silent⟩
  counters_eq := by
    rw [h'.counters_eq, h.counters_eq, Counters.countHits_countHits, List.countP_append, List.length_append]

/-- A cycle without a miss. -/
theorem Free.unstalled (h : s.Free) {bus : Bus.Request} {we : Bool} (hb : s.cycle < s.maxCycles)
    (hmiss : s.cache.misses bus = false)
    (hcount : s.cache.countCheck bus = s.cache.counters.countHits we (s.cache.acks bus).toNat 1) :
    Unstalled we s [s.seen bus] (s.next bus) where
  trace := Trace.nil.snoc (h.run_tick bus hb)
  free := h.next hmiss
  silent c hc := by
    rw [List.mem_singleton.mp hc, seen, Cache.linkRequest, h.state_eq]
  counters_eq := by
    have hack : (s.cache.busResponse bus).ack = s.cache.acks bus := by
      rw [Bool.eq_iff_iff, s.cache.ack_busResponse bus]
      simp [h.state_eq]
    have hcounters : (s.next bus).cache.counters = s.cache.countCheck bus := by
      rw [cache_next, Cache.counters_next, h.state_eq]
    rw [hcounters, hcount, seen, List.countP_singleton, hack]
    cases s.cache.acks bus <;> rfl

/-- An acknowledged beat is a cycle without a stall. -/
theorem Free.unstalled_of_acks (h : s.Free) (hb : s.cycle < s.maxCycles) (hacks : s.cache.acks r = true) :
    Unstalled r.we s [s.seen r] (s.next r) := by
  refine h.unstalled hb (s.cache.misses_eq_false_of_acks r hacks) ?_
  rw [Cache.countCheck_of_acks hacks h.first_try, hacks]
  rfl

/-- A request that was not presented in the cycle before waits for its line; so does an idle bus. -/
theorem Free.unstalled_of_not_compares (h : s.Free) (hb : s.cycle < s.maxCycles) (we : Bool)
    (hnew : (r.isActive && s.cache.sampled.isActive) = false) : Unstalled we s [s.seen r] (s.next r) := by
  have hacks : s.cache.acks r = false := by simp [Cache.acks, Cache.compares, hnew]
  have hmiss : s.cache.misses r = false := by simp [Cache.misses, Cache.compares, hnew]
  refine h.unstalled hb hmiss ?_
  rw [Cache.countCheck_of_not_compares hnew we, hacks]
  rfl

end Simulator

namespace Initiator

open Simulator

variable {L : Type} [LatencyModel L] {s : Simulator (MemoryStore L)} {r : Bus.Request} (i : Initiator)

/-- A request that is acknowledged is held no longer. -/
theorem run_hold_of_acks (h : s.Free) (hb : s.cycle < s.maxCycles) (hacks : s.cache.acks r = true)
    (tries : Nat) : (i.hold r (tries + 1)).run s = .ok (s.cache.busResponse r).datR (s.next r) := by
  rw [hold, EStateM.run_bind, h.run_tick r hb]
  dsimp only
  rw [if_pos ((s.cache.ack_busResponse r).mpr ⟨h.state_eq, hacks⟩)]
  rfl

/-- A request that is not acknowledged is held for another cycle. -/
theorem run_hold_of_not_acks (h : s.Free) (hb : s.cycle < s.maxCycles) (hacks : s.cache.acks r = false)
    (tries : Nat) : (i.hold r (tries + 1)).run s = (i.hold r tries).run (s.next r) := by
  rw [hold, EStateM.run_bind, h.run_tick r hb]
  dsimp only
  rw [silent_of_acks_eq_false hacks]
  rfl

/-- **A stream of hits**: the beats are acknowledged in one cycle each. -/
theorem run_mapM_beat_of_streams (h : s.Free) {we : Bool} {requests : List Bus.Request}
    (hstreams : s.cache.Streams we requests) (hb : s.cycle + requests.length ≤ s.maxCycles) :
    ∃ words s' cycles, (requests.mapM i.beat).run s = .ok words s' ∧ Unstalled we s cycles s' ∧
      cycles.map Cycle.bus = requests ∧
      cycles.map (fun c => c.response.ack) = List.replicate requests.length true := by
  induction requests generalizing s with
  | nil =>
      refine ⟨[], s, [], rfl, ⟨.nil, h, List.forall_mem_nil _, ?_⟩, rfl, rfl⟩
      cases we <;> rfl
  | cons r requests ih =>
      rw [List.length_cons] at hb
      have hacks : s.cache.acks r = true := hstreams.hits r rfl
      have hfirst := h.unstalled_of_acks (by omega) hacks
      rw [hstreams.we_eq r List.mem_cons_self] at hfirst
      have hnext : (s.next r).cache = s.cache.checkEdge r := Cache.next_check h.state_eq r _
      have hlater := hstreams.checkEdge h.inStep.valid h.state_eq
      rw [← hnext] at hlater
      obtain ⟨words, s', cycles, hrun, hrest, hbuses, hacked⟩ :=
        ih hfirst.free hlater (by rw [cycle_next, maxCycles_next]; omega)
      refine ⟨(s.cache.busResponse r).datR :: words, s', s.seen r :: cycles, ?_, hfirst.append hrest, ?_, ?_⟩
      · rw [List.mapM_cons, EStateM.run_bind, beat, i.run_hold_of_acks h (by omega) hacks]
        dsimp only
        rw [EStateM.run_bind, hrun]
        rfl
      · rw [List.map_cons, hbuses]
        rfl
      · rw [List.map_cons, hacked, List.length_cons, List.replicate_succ]
        exact congrArg (· :: _) ((s.cache.ack_busResponse r).mpr ⟨h.state_eq, hacks⟩)

/-- **Beats over resident blocks**: the first one waits for a cycle, in which its line is read, and then they
stream. -/
theorem run_mapM_beat_of_walks (h : s.Free) (hinactive : s.cache.sampled.isActive = false) {we : Bool}
    {requests : List Bus.Request} (hwalks : s.cache.Walks we (r :: requests)) (htimeout : 1 ≤ i.timeout)
    (hb : s.cycle + (requests.length + 2) ≤ s.maxCycles) :
    ∃ words s' cycles, ((r :: requests).mapM i.beat).run s = .ok words s' ∧ Unstalled we s cycles s' ∧
      cycles.map Cycle.bus = r :: r :: requests ∧
      cycles.map (fun c => c.response.ack) = false :: List.replicate (requests.length + 1) true := by
  have hactive := hwalks.active r List.mem_cons_self
  obtain ⟨l, hl, htag⟩ := hwalks.resident r List.mem_cons_self
  obtain ⟨hacks, hmiss⟩ := undecided_of_inactive hinactive r
  obtain ⟨_, _, hdecides, _⟩ := decides_next h.state_eq hactive hacks hmiss hl
  have hfirst := h.unstalled_of_not_compares (r := r) (by omega) we (by rw [hinactive, Bool.and_false])
  have hnext : (s.next r).cache = s.cache.checkEdge r := Cache.next_check h.state_eq r _
  have hstreams : (s.next r).cache.Streams we (r :: requests) := by
    rw [hnext] at hdecides ⊢
    refine ⟨hwalks.checkEdge h.inStep.valid h.state_eq r, fun r' hr' => ?_⟩
    cases hr'
    exact hdecides.mpr htag
  obtain ⟨words, s', cycles, hrun, hrest, hbuses, hacked⟩ := i.run_mapM_beat_of_streams hfirst.free hstreams
    (by rw [cycle_next, maxCycles_next, List.length_cons]; omega)
  refine ⟨words, s', s.seen r :: cycles, ?_, hfirst.append hrest, ?_, ?_⟩
  · -- one more cycle of patience makes no difference to a beat that is acknowledged in the next one
    rw [← hrun]
    simp only [List.mapM_cons, EStateM.run_bind, beat]
    rw [i.run_hold_of_not_acks h (by omega) hacks]
    obtain ⟨tries, htries⟩ := Nat.exists_eq_add_of_le' htimeout
    have hbudget : (s.next r).cycle < (s.next r).maxCycles := by rw [cycle_next, maxCycles_next]; omega
    rw [htries, i.run_hold_of_acks hfirst.free hbudget (hdecides.mpr htag),
      i.run_hold_of_acks hfirst.free hbudget (hdecides.mpr htag)]
  · rw [List.map_cons, hbuses]
    rfl
  · rw [List.map_cons, hacked, List.length_cons]
    exact congrArg (· :: _) (silent_of_acks_eq_false hacks)

end Initiator

/-! ## Between transactions -/

namespace Simulator

variable {L : Type} {g : Geometry} {u : Untimed} {s : Simulator (MemoryStore L)}

theorem Rests.free (h : Rests g u s) : s.Free := ⟨h.inStep, h.serving, h.fresh⟩

/-- At rest, and no request was presented in the last cycle. -/
structure Parked (g : Geometry) (u : Untimed) (s : Simulator (MemoryStore L)) : Prop extends Rests g u s where
  inactive : s.cache.sampled.isActive = false

variable [LatencyModel L]

/-- After an idle cycle the simulator is parked. -/
theorem Rests.parked_next (h : Rests g u s) : Parked g u (s.next .idle) where
  toRests := h.next_idle
  inactive := by
    rw [cache_next, Cache.next_check h.serving]
    rfl

end Simulator

namespace Initiator

open Simulator

variable {L : Type} [LatencyModel L] {u : Untimed} {s : Simulator (MemoryStore L)}
variable (i : Initiator)

/-- A transaction that returns leaves the simulator parked. -/
theorem parks_execute (h : Parked i.geometry u s) (t : Transaction) :
    Returns (i.execute t) s fun _ s' => ∃ u', Parked i.geometry u' s' := by
  have hbeats : Returns ((i.requests t).mapM i.beat) s fun _ s' => ∃ u', Rests i.geometry u' s' :=
    (i.refines_mapM_beat h.toRests (i.we_requests t)).mono fun _ _ hs' => ⟨_, hs'.1⟩
  refine i.ends_execute_of_idle (J := fun s' => ∃ u', Parked i.geometry u' s') ⟨u, h⟩ hbeats fun s' ⟨_, hs'⟩ => ?_
  exact (returns_next hs'.inStep.watches .idle).mono fun _ _ ⟨_, hnext⟩ => ⟨_, hnext ▸ hs'.parked_next⟩

end Initiator

namespace Simulator

variable {L : Type} [LatencyModel L] {config : Config} {g : Geometry} {u : Untimed}
variable {s s' : Simulator (MemoryStore L)}

/-- A history of transactions that all succeed leaves the bus quiet and the cache at rest. -/
theorem Parked.history (h : Parked g u s) (history : List (Nat × Transaction)) {words : List (List Nat)}
    (hrun : (history.mapM fun job => (Initiator.mk g job.1).execute job.2).run s = .ok words s') :
    ∃ u', Parked g u' s' := by
  have hreturns : Returns (history.mapM fun job => (Initiator.mk g job.1).execute job.2) s
      fun _ s' => ∃ u', Parked g u' s' :=
    returns_mapM (fun job _ _ ⟨_, hs⟩ => (Initiator.mk g job.1).parks_execute hs job.2) ⟨u, h⟩
  exact hreturns.of_run_eq_ok hrun

/-- **Resident bursts run at one beat per cycle**, for every configuration, latency model and content of the
store, and after any transactions on a fresh simulator that all succeed, each with its own timeout.

When the block of every beat of a transaction is in the cache, the initiator waits for at least one cycle, and
the run has cycles enough for it, then the transaction succeeds: its first request is presented for two cycles
and every other one for one, the beats are acknowledged from the second cycle on without a break, and the bus
idles in the last one. In none of these cycles anything is offered to the store, and of the counters only the
cycles and the hits change. The first `j` beats take `j + 1` cycles. -/
theorem resident_burst_streams (hg : Geometry.ofConfig config.cache config.backing = .ok g) (latency : L)
    (contents : List (Nat × Block × Nat)) (history : List (Nat × Transaction)) {words : List (List Nat)}
    (hrun : (history.mapM fun job => (Initiator.mk g job.1).execute job.2).run
      (ofContents config g latency contents) = .ok words s)
    (timeout : Nat) (t : Transaction) (hbeats : 1 ≤ t.beats)
    (hresident : ∀ beat ∈ t.toBeats g, s.cache.Resident beat.adr) (htimeout : 1 ≤ timeout)
    (hbudget : s.cycle + (t.beats + 2) ≤ s.maxCycles) :
    let i := Initiator.mk g timeout
    (∃ observed s' cycles, (i.execute t).run s = .ok observed s' ∧ Trace s cycles s' ∧
      cycles.map Cycle.bus = (i.requests t).take 1 ++ i.requests t ++ [.idle] ∧
      cycles.map (fun c => c.response.ack) = false :: List.replicate t.beats true ++ [false] ∧
      (∀ c ∈ cycles, c.before.cache.linkRequest = {}) ∧
      s'.cache.counters = s.cache.counters.countHits (!t.reads) t.beats (t.beats + 2)) ∧
    ∀ j, 1 ≤ j → j ≤ t.beats → ∃ observed middle,
      (((i.requests t).take j).mapM i.beat).run s = .ok observed middle ∧ middle.cycle = s.cycle + (j + 1) := by
  intro i
  have hstart : Parked g _ (ofContents config g latency contents) :=
    ⟨rests_ofContents hg latency contents, rfl⟩
  obtain ⟨u, hparked⟩ := hstart.history history hrun
  have hwalks : s.cache.Walks (!t.reads) (i.requests t) := by
    refine ⟨?_, i.isActive_requests t, i.we_requests t, fun r hr => ?_⟩
    · rw [hparked.geometry_eq]
      exact i.isChain_requests t
    · rw [← r.adr_toBeat]
      refine hresident _ ?_
      rw [← i.toBeat_requests t]
      exact List.mem_map_of_mem hr
  have hlength := i.length_requests t
  obtain ⟨r, requests, hrequests⟩ : ∃ r requests, i.requests t = r :: requests :=
    List.exists_cons_of_length_pos (by omega)
  rw [hrequests, List.length_cons] at hlength
  rw [hrequests] at hwalks
  refine ⟨?_, fun j hj hle => ?_⟩
  · obtain ⟨observed, middle, cycles, hmapM, hunstalled, hbuses, hacks⟩ :=
      i.run_mapM_beat_of_walks hparked.free hparked.inactive hwalks htimeout (by omega)
    have hcount := congrArg List.length hacks
    rw [List.length_map, List.length_cons, List.length_replicate] at hcount
    obtain ⟨hcycle, hmax⟩ := hunstalled.trace.cycle_eq_add
    have hleft : middle.cycle < middle.maxCycles := by omega
    have hidle := hunstalled.free.unstalled_of_not_compares (r := .idle) hleft (!t.reads) rfl
    have hacked : (cycles ++ [middle.seen .idle]).map (fun c => c.response.ack) =
        false :: List.replicate t.beats true ++ [false] := by
      rw [List.map_append, hacks, hlength]
      exact congrArg (_ ++ [·]) (silent_of_acks_eq_false rfl)
    have hhits : (cycles ++ [middle.seen .idle]).countP (fun c => c.response.ack) = t.beats := by
      refine (List.countP_map (p := id)).symm.trans ?_
      simp [hacked, List.countP_replicate]
    have hticks : (cycles ++ [middle.seen .idle]).length = t.beats + 2 := by
      rw [List.length_append, hcount, hlength]
      rfl
    obtain ⟨htrace, _, hsilent, hcounters⟩ := hunstalled.append hidle
    refine ⟨if t.reads then observed else [], middle.next .idle, _, ?_, htrace, ?_, hacked, hsilent, ?_⟩
    · rw [i.execute_eq, hrequests, EStateM.run_bind, hmapM, show min 1 t.beats = 1 by omega]
      simp only [idle, EStateM.run_bind, hunstalled.free.run_tick .idle hleft]
      rfl
    · rw [List.map_append, hbuses, hrequests]
      rfl
    · rw [hcounters, hhits, hticks]
  · obtain ⟨m, rfl⟩ := Nat.exists_eq_add_of_le' hj
    have htake := hwalks.take (m + 1)
    rw [List.take_succ_cons] at htake
    have hshort : (requests.take m).length = m := by rw [List.length_take]; omega
    obtain ⟨observed, middle, cycles, hmapM, hunstalled, _, hacks⟩ :=
      i.run_mapM_beat_of_walks hparked.free hparked.inactive htake htimeout (by omega)
    have hcount := congrArg List.length hacks
    rw [List.length_map, List.length_cons, List.length_replicate, hshort] at hcount
    refine ⟨observed, middle, ?_, ?_⟩
    · rw [hrequests, List.take_succ_cons]
      exact hmapM
    · rw [hunstalled.trace.cycle_eq_add.1, hcount]

/-- After a write has fetched the block, a burst writes both of its words in two cycles: each of the writes makes
the copy stale from which the next one is acknowledged. -/
theorem resident_burst_streams_writes :
    ∃ words s, ([(20, .write 1 0xabcd 3)].mapM fun job => (Initiator.mk tiny job.1).execute job.2).run
        (ofContents tinyConfig tiny (Timing.fixed 1) []) = .ok words s ∧
      ∃ observed s' cycles, ((Initiator.mk tiny 1).execute (.burstWrite 0 .linear [1, 2])).run s =
          .ok observed s' ∧ Trace s cycles s' ∧
        cycles.map (fun c => c.response.ack) = [false, true, true, false] ∧
        s'.cache.counters.writeHits = s.cache.counters.writeHits + 2 := by
  have hready : (match ([(20, .write 1 0xabcd 3)].mapM fun job =>
        (Initiator.mk tiny job.1).execute job.2).run (ofContents tinyConfig tiny (Timing.fixed 1) []) with
      | .ok _ s => decide ((∀ beat ∈ (Transaction.burstWrite 0 .linear [1, 2]).toBeats tiny,
          s.cache.Resident beat.adr) ∧ s.cycle + 4 ≤ s.maxCycles)
      | .error .. => false) = true := by
    decide +kernel
  cases hrun : ([(20, .write 1 0xabcd 3)].mapM fun job => (Initiator.mk tiny job.1).execute job.2).run
      (ofContents tinyConfig tiny (Timing.fixed 1) []) with
  | ok words s =>
      rw [hrun] at hready
      obtain ⟨hresident, hbudget⟩ := of_decide_eq_true hready
      obtain ⟨⟨observed, s', cycles, hexecute, htrace, _, hacks, _, hcounters⟩, _⟩ :=
        resident_burst_streams ofConfig_tinyConfig (Timing.fixed 1) [] _ hrun 1
          (.burstWrite 0 .linear [1, 2]) (by decide) hresident (Nat.le_refl 1) hbudget
      exact ⟨words, s, rfl, observed, s', cycles, hexecute, htrace, hacks, by rw [hcounters]; rfl⟩
  | error e s =>
      rw [hrun] at hready
      cases hready

end Simulator

end WriteBack
