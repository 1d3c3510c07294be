import WriteBack.Proofs.Consistency
import WriteBack.Proofs.InStep

/-!
# WriteBack.Proofs.Refinement

The clocked cache refines the untimed one. While a request is presented the untimed cache is somewhere within
its step (`Untimed.during`), and `Presents` ties the two together from cycle to cycle. When the request is
acknowledged, the step is complete and both are at rest (`Presents.next_of_ack`). From there on it is a matter
of computations: a beat is a step, a transaction its steps in order, and a run of transactions a run of the
untimed cache on their beats (`refines_untimed`).
-/

namespace WriteBack

open Link

/-! ## Within a step -/

namespace Untimed

variable {g : Geometry} {u : Untimed} {a : Address}

/-- How far the step of a beat at `a` has come when the clocked cache is in the given state. -/
def during (g : Geometry) (u : Untimed) (a : Address) (retrying : Bool) : Cache.State → Untimed
  | .check => if retrying then u.fetch g a else u
  | .evict p => if p.beat then u.makeRoom g a else u.countMiss
  | .refill p => if p.beat then u.fetch g a else u.makeRoom g a

/-- A resident block is not fetched. -/
theorem fetch_of_holds (h : u.holds a = true) : u.fetch g a = u := by
  simp [fetch, h]

/-- Another block is fetched after room was made for it. -/
theorem fetch_of_not_holds (h : u.holds a = false) : u.fetch g a = (u.makeRoom g a).fill g a := by
  simp [fetch, h]

/-- A dirty victim is written back. -/
theorem makeRoom_of_dirty (h : (u.lines a.line).dirty = true) :
    u.makeRoom g a = u.countMiss.writeBack g a.line := by
  simp [makeRoom, h]

/-- A clean victim is dropped. -/
theorem makeRoom_of_clean (h : (u.lines a.line).dirty = false) : u.makeRoom g a = u.countMiss := by
  simp [makeRoom, h]

/-- A block that was fetched is resident. -/
@[simp] theorem holds_fetch : (u.fetch g a).holds a = true := by
  cases h : u.holds a with
  | true => rw [fetch_of_holds h, h]
  | false => simp [fetch_of_not_holds h, fill, holds]

theorem run_cons (beat : Beat) (beats : List Beat) :
    u.run g (beat :: beats) =
      ((u.step g beat).1 ++ ((u.step g beat).2.run g beats).1, ((u.step g beat).2.run g beats).2) := rfl

/-- Beats are processed in order, so a list of them is processed part by part. -/
theorem run_append (xs ys : List Beat) :
    u.run g (xs ++ ys) =
      ((u.run g xs).1 ++ ((u.run g xs).2.run g ys).1, ((u.run g xs).2.run g ys).2) := by
  induction xs generalizing u with
  | nil => simp [run]
  | cons beat xs ih => simp [run_cons, ih]

end Untimed

/-! ## A request on the bus -/

namespace Simulator

variable {L : Type}

/-- Between two beats: the cache serves requests, and no miss is left over. -/
structure Rests (g : Geometry) (u : Untimed) (s : Simulator (MemoryStore L)) : Prop where
  inStep : s.InStep
  geometry_eq : s.cache.geometry = g
  shows : s.Shows u
  serving : s.cache.state = .check
  fresh : s.cache.retrying = false

/-- A request is presented, and its beat has not been acknowledged yet. -/
structure Presents (g : Geometry) (r : Bus.Request) (u : Untimed) (s : Simulator (MemoryStore L)) : Prop where
  inStep : s.InStep
  geometry_eq : s.cache.geometry = g
  shows : s.Shows (u.during g (g.layout.split r.adr) s.cache.retrying s.cache.state)
  /-- The cache waits for the block of this request. -/
  awaits : s.cache.state.isStalled = true → s.cache.retrying = true ∧ s.cache.missed = g.layout.split r.adr
  missed : s.cache.retrying = true → u.holds (g.layout.split r.adr) = false
  dirty : ∀ {p}, s.cache.state = .evict p → (u.lines (g.layout.split r.adr).line).dirty = true

variable {g : Geometry} {r : Bus.Request} {u : Untimed} {s : Simulator (MemoryStore L)}

/-- Any request can come next. -/
theorem Rests.presents (h : Rests g u s) (r : Bus.Request) : Presents g r u s where
  inStep := h.inStep
  geometry_eq := h.geometry_eq
  shows := by
    rw [h.serving, h.fresh]
    exact h.shows
  awaits hs := by
    rw [h.serving] at hs
    cases hs
  missed hr := absurd (h.fresh.symm.trans hr) (by decide)
  dirty hs := by
    rw [h.serving] at hs
    cases hs

/-- When a request hits, its block has been fetched, if it had to be. -/
theorem Presents.shows_of_acks (h : Presents g r u s) (hs : s.cache.state = .check)
    (hacks : s.cache.acks r = true) :
    s.Shows (u.fetch g (g.layout.split r.adr)) ∧ (!s.cache.retrying) = u.holds (g.layout.split r.adr) := by
  obtain ⟨hstep, rfl, hshows, _, hmissed, _⟩ := h
  rw [hs, Untimed.during] at hshows
  cases hr : s.cache.retrying with
  | true =>
      rw [hr, if_pos rfl] at hshows
      exact ⟨hshows, (hmissed hr).symm⟩
  | false =>
      rw [hr, if_neg (by decide)] at hshows
      obtain ⟨l, hl, htag, _⟩ := hstep.valid.line?_of_acks hs hacks
      have hline := hshows.lines _ (s.cache.geometry.split_line_lt r.adr)
      have hholds : u.holds (s.cache.geometry.layout.split r.adr) = true := by
        rw [Untimed.holds, Option.some.inj (hline.symm.trans hl)]
        exact beq_iff_eq.mpr htag
      rw [Untimed.fetch_of_holds hholds]
      exact ⟨hshows, hholds.symm⟩

/-- A request misses once: the block that has been fetched for it stays in its line. -/
theorem Presents.shows_of_misses (h : Presents g r u s) (hs : s.cache.state = .check)
    (hmiss : s.cache.misses r = true) :
    s.Shows u ∧ u.lines (g.layout.split r.adr).line = s.cache.loaded ∧
      u.holds (g.layout.split r.adr) = false := by
  obtain ⟨hstep, rfl, hshows, _⟩ := h
  obtain ⟨hloaded, htag⟩ := hstep.valid.line?_of_misses hmiss
  rw [hs] at hshows
  have hline := hshows.lines _ (s.cache.geometry.split_line_lt r.adr)
  have hvictim := Option.some.inj (hline.symm.trans hloaded)
  cases hr : s.cache.retrying with
  | true =>
      -- the block is in the line since its refill, so the tags cannot differ again
      have hholds : (u.fetch s.cache.geometry (s.cache.target r)).holds (s.cache.target r) = true :=
        Untimed.holds_fetch
      rw [Untimed.during, if_pos hr] at hvictim
      rw [Untimed.holds, Cache.target, hvictim, beq_iff_eq] at hholds
      exact absurd hholds htag
  | false =>
      rw [Untimed.during, hr, if_neg (by decide)] at hshows hvictim
      refine ⟨hshows, hvictim, ?_⟩
      rw [Untimed.holds, hvictim]
      exact beq_eq_false_iff_ne.mpr htag

variable [LatencyModel L]

/-- **The acknowledgement**: the step of the beat is complete, and a read gets its word. -/
theorem Presents.next_of_ack (h : Presents g r u s) (hack : (s.cache.busResponse r).ack = true) :
    Rests g (u.step g r.toBeat).2 (s.next r) ∧
      (u.step g r.toBeat).1 = if r.we then [] else [(s.cache.busResponse r).datR] := by
  obtain ⟨hs, hacks⟩ := (s.cache.ack_busResponse r).mp hack
  obtain ⟨hshows, hhit⟩ := h.shows_of_acks hs hacks
  obtain ⟨hstep, rfl, _⟩ := h
  have hmiss := s.cache.misses_eq_false_of_acks r hacks
  have hperform : s.advance r (u.fetch s.cache.geometry (s.cache.geometry.layout.split r.adr)) =
      (u.step s.cache.geometry r.toBeat).2 := by
    simp [advance, hs, hacks, hhit, Untimed.step]
  refine ⟨⟨hstep.next r, Cache.geometry_next .., hperform ▸ hshows.next hstep r, ?_, ?_⟩, ?_⟩
  · rw [cache_next, Cache.next_check hs, Cache.state_checkEdge, hmiss]
    rfl
  · rw [cache_next, Cache.next_check hs, Cache.retrying_checkEdge]
    simp [hmiss, hacks]
  · rw [Untimed.step, Bus.Request.we_toBeat, Bus.Request.adr_toBeat]
    cases hwe : r.we with
    | true => rfl
    | false =>
        obtain ⟨l, hl, _, hloaded⟩ := hstep.valid.line?_of_acks hs hacks
        have hline := hshows.lines _ (s.cache.geometry.split_line_lt r.adr)
        have hdata : s.cache.data.out = l.data := congrArg Cache.Line.data (hloaded hwe).symm
        rw [Cache.busResponse, hs]
        dsimp only
        rw [if_pos hacks, hdata, ← Option.some.inj (hline.symm.trans hl)]
        rfl

/-- A miss: the line of the request holds another block, which is dirty if the cache is to write it back. -/
theorem Presents.next_of_misses (h : Presents g r u s) (hs : s.cache.state = .check)
    (hmiss : s.cache.misses r = true) : Presents g r u (s.next r) := by
  obtain ⟨hshows, hvictim, hholds⟩ := h.shows_of_misses hs hmiss
  obtain ⟨hstep, rfl, _⟩ := h
  have hacks := (s.cache.acks_loads_of_misses r hmiss).1
  have hdirty : (u.lines (s.cache.geometry.layout.split r.adr).line).dirty = s.cache.tags.out.dirty := by
    rw [hvictim]
    rfl
  have hcounted : (s.next r).Shows u.countMiss := by
    have hnext := hshows.next hstep r
    rw [advance, hs] at hnext
    simpa [hacks, hmiss] using hnext
  have hretrying : (s.next r).cache.retrying = true := by
    rw [cache_next, Cache.next_check hs, Cache.retrying_checkEdge, hmiss, Bool.true_or]
  have hstate : (s.next r).cache.state = if s.cache.tags.out.dirty then .evict {} else .refill {} := by
    rw [cache_next, Cache.next_check hs, Cache.state_checkEdge, hmiss, if_pos rfl]
  refine ⟨hstep.next r, Cache.geometry_next .., ?_, fun _ => ⟨hretrying, ?_⟩, fun _ => hholds, fun hevict => ?_⟩
  · rw [hstate]
    cases htags : s.cache.tags.out.dirty with
    | true => exact hcounted
    | false =>
        have hroom : u.makeRoom s.cache.geometry (s.cache.geometry.layout.split r.adr) = u.countMiss :=
          Untimed.makeRoom_of_clean (hdirty.trans htags)
        rw [← hroom] at hcounted
        exact hcounted
  · rw [cache_next, Cache.next_check hs]
    exact s.cache.missed_checkEdge_of_misses r hmiss
  · rw [hdirty, ← Bool.not_eq_false]
    intro htags
    rw [hstate, htags] at hevict
    cases hevict

/-- A cycle in which the read registers are not there yet. -/
theorem Presents.next_of_waits (h : Presents g r u s) (hs : s.cache.state = .check)
    (hacks : s.cache.acks r = false) (hmiss : s.cache.misses r = false) : Presents g r u (s.next r) := by
  obtain ⟨hstep, rfl, hshows, _, hmissed, _⟩ := h
  have hstate : (s.next r).cache.state = .check := by
    rw [cache_next, Cache.next_check hs, Cache.state_checkEdge, hmiss]
    rfl
  have hretrying : (s.next r).cache.retrying = s.cache.retrying := by
    rw [cache_next, Cache.next_check hs, Cache.retrying_checkEdge]
    simp [hacks, hmiss]
  refine ⟨hstep.next r, Cache.geometry_next .., ?_, fun hstalled => ?_, fun hr => ?_, fun hevict => ?_⟩
  · have hnext := hshows.next hstep r
    rw [advance, hs] at hnext
    rw [hstate, hretrying]
    simpa [hacks, hmiss] using hnext
  · rw [hstate] at hstalled
    cases hstalled
  · exact hmissed (hretrying ▸ hr)
  · rw [hstate] at hevict
    cases hevict

/-- The line is written back, or about to be. -/
theorem Presents.next_of_evict (h : Presents g r u s) {p : Progress} (hs : s.cache.state = .evict p) :
    Presents g r u (s.next r) := by
  obtain ⟨hstep, rfl, hshows, hawaits, hmissed, hdirty⟩ := h
  have hstalled : s.cache.state.isStalled = true := by rw [hs]; rfl
  obtain ⟨hretrying, htarget⟩ := hawaits hstalled
  obtain ⟨hretrying', htarget'⟩ := s.cache.miss_kept_of_stalled hstalled r s.link.drive
  have hwritten : (s.next r).Shows (if p.beat || s.transfers.write.isSome
      then u.makeRoom s.cache.geometry s.cache.missed else u.countMiss) := by
    have hnext := hshows.next hstep r
    rw [advance, hs] at hnext
    dsimp only [Untimed.during] at hnext
    rw [← htarget] at hnext hdirty
    cases hbeat : p.beat with
    | true =>
        -- the victim is in the store, and the cache only waits for its own state to change
        simpa [hbeat, eq_false_of_once (write_isSome_of_evict hs) hbeat] using hnext
    | false =>
        rw [Untimed.makeRoom_of_dirty (hdirty hs)]
        simpa [hbeat] using hnext
  have hstate : (s.next r).cache.state =
      if p.isDone then .refill {} else .evict (Cache.evictProgress p s.transfers) := by
    rw [cache_next, Cache.next_evict hs, Cache.state_evictEdge]
    rfl
  refine ⟨hstep.next r, Cache.geometry_next .., ?_, fun _ => ⟨hretrying'.trans hretrying, htarget'.trans htarget⟩,
    fun _ => hmissed hretrying, fun _ => hdirty hs⟩
  rw [hstate, ← htarget]
  cases hdone : p.isDone with
  | true =>
      cases Cache.eq_of_isDone hdone
      exact hwritten
  | false => exact hwritten

/-- The block is fetched, or about to be. -/
theorem Presents.next_of_refill (h : Presents g r u s) {p : Progress} (hs : s.cache.state = .refill p) :
    Presents g r u (s.next r) := by
  obtain ⟨hstep, rfl, hshows, hawaits, hmissed, hdirty⟩ := h
  have hstalled : s.cache.state.isStalled = true := by rw [hs]; rfl
  obtain ⟨hretrying, htarget⟩ := hawaits hstalled
  obtain ⟨hretrying', htarget'⟩ := s.cache.miss_kept_of_stalled hstalled r s.link.drive
  have hfetched : (s.next r).Shows (if p.beat || s.transfers.read.isSome
      then u.fetch s.cache.geometry s.cache.missed else u.makeRoom s.cache.geometry s.cache.missed) := by
    have hnext := hshows.next hstep r
    have hholds := hmissed hretrying
    rw [advance, hs] at hnext
    dsimp only [Untimed.during] at hnext
    rw [← htarget] at hnext hholds
    cases hbeat : p.beat with
    | true =>
        simpa [hbeat, eq_false_of_once (read_isSome_of_refill hs) hbeat] using hnext
    | false =>
        rw [Untimed.fetch_of_not_holds hholds]
        simpa [hbeat] using hnext
  have hstate : (s.next r).cache.state =
      if p.isDone then .check else .refill (Cache.refillProgress p s.transfers) := by
    rw [cache_next, Cache.next_refill hs, Cache.state_refillEdge]
    rfl
  refine ⟨hstep.next r, Cache.geometry_next .., ?_, fun _ => ⟨hretrying'.trans hretrying, htarget'.trans htarget⟩,
    fun _ => hmissed hretrying, fun hevict => ?_⟩
  · rw [hstate, cache_next, hretrying'.trans hretrying, ← htarget]
    cases hdone : p.isDone with
    | true =>
        cases Cache.eq_of_isDone hdone
        exact hfetched
    | false => exact hfetched
  · rw [hstate] at hevict
    split at hevict <;> cases hevict

/-- **Until the acknowledgement**: no cycle loses track of the step, whatever the state and the latency. -/
theorem Presents.next_of_not_ack (h : Presents g r u s) (hack : (s.cache.busResponse r).ack = false) :
    Presents g r u (s.next r) := by
  cases hs : s.cache.state with
  | check =>
      have hacks : s.cache.acks r = false := by
        rw [← Bool.not_eq_true]
        intro hacks
        rw [(s.cache.ack_busResponse r).mpr ⟨hs, hacks⟩] at hack
        cases hack
      cases hmiss : s.cache.misses r with
      | true => exact h.next_of_misses hs hmiss
      | false => exact h.next_of_waits hs hacks hmiss
  | evict p => exact h.next_of_evict hs
  | refill p => exact h.next_of_refill hs

/-- An idle bus leaves the cache at rest. -/
theorem Rests.next_idle (h : Rests g u s) : Rests g u (s.next .idle) := by
  obtain ⟨hstep, rfl, hshows, hs, hfresh⟩ := h
  have hacks : s.cache.acks .idle = false := rfl
  have hmiss : s.cache.misses .idle = false := rfl
  refine ⟨hstep.next .idle, Cache.geometry_next .., ?_, ?_, ?_⟩
  · have hnext := hshows.next hstep .idle
    rw [advance, hs] at hnext
    simpa [hacks, hmiss] using hnext
  · rw [cache_next, Cache.next_check hs, Cache.state_checkEdge, hmiss]
    rfl
  · rw [cache_next, Cache.next_check hs, Cache.retrying_checkEdge]
    simp [hmiss, hfresh]

end Simulator

/-! ## Computations -/

namespace Initiator

open Simulator

variable {L : Type} [LatencyModel L] {g : Geometry} {u : Untimed} {s : Simulator (MemoryStore L)}
variable (i : Initiator)

/-- Holding a request until it is acknowledged is one step, however long it takes. -/
theorem refines_hold {r : Bus.Request} (h : Presents g r u s) (tries : Nat) :
    Returns (i.hold r tries) s fun word s' =>
      Rests g (u.step g r.toBeat).2 s' ∧ (u.step g r.toBeat).1 = if r.we then [] else [word] := by
  induction tries generalizing s with
  | zero => exact returns_throw (e := .timeout r.adr i.timeout) trivial s _
  | succ tries ih =>
      rw [hold]
      refine (returns_next h.inStep.watches r).bind fun response s' ⟨hresponse, hs'⟩ => ?_
      subst hresponse hs'
      cases hack : (s.cache.busResponse r).ack with
      | true => exact returns_pure (h.next_of_ack hack)
      | false => exact ih (h.next_of_not_ack hack)

/-- The requests of a transaction are its steps. -/
theorem refines_mapM_beat (h : Rests g u s) {reads : Bool} {requests : List Bus.Request}
    (hwe : ∀ r ∈ requests, r.we = !reads) :
    Returns (requests.mapM i.beat) s fun words s' =>
      Rests g (u.run g (requests.map Bus.Request.toBeat)).2 s' ∧
        (u.run g (requests.map Bus.Request.toBeat)).1 = if reads then words else [] := by
  induction requests generalizing u s with
  | nil => exact returns_pure ⟨h, by simp [Untimed.run]⟩
  | cons r requests ih =>
      obtain ⟨hr, hrest⟩ := List.forall_mem_cons.mp hwe
      rw [List.mapM_cons]
      refine (i.refines_hold (h.presents r) _).bind fun word s₁ ⟨h₁, hword⟩ => ?_
      refine (ih h₁ hrest).bind fun words s₂ ⟨h₂, hwords⟩ => ?_
      refine returns_pure ⟨h₂, ?_⟩
      rw [List.map_cons, Untimed.run_cons]
      dsimp only
      rw [hword, hwords, hr]
      cases reads <;> simp

theorem refines_idle (h : Rests g u s) (n : Nat) : Returns (idle n) s fun _ s' => Rests g u s' := by
  induction n generalizing s with
  | zero => exact returns_pure h
  | succ n ih =>
      refine (returns_next h.inStep.watches .idle).bind fun _ s' ⟨_, hs'⟩ => ?_
      exact ih (hs' ▸ h.next_idle)

/-- **A transaction refines its beats**: what it returns is what the untimed cache returns for them, and the simulator
rests with the untimed cache again. -/
theorem refines_execute (h : Rests i.geometry u s) (t : Transaction) :
    Returns (i.execute t) s fun words s' =>
      Rests i.geometry (u.run i.geometry (t.toBeats i.geometry)).2 s' ∧
        words = (u.run i.geometry (t.toBeats i.geometry)).1 := by
  rw [i.execute_eq t]
  refine (i.refines_mapM_beat h (i.we_requests t)).bind fun words s₁ ⟨h₁, hwords⟩ => ?_
  rw [i.toBeat_requests] at h₁ hwords
  refine (refines_idle h₁ _).bind fun _ s₂ h₂ => ?_
  exact returns_pure ⟨h₂, hwords.symm⟩

/-- A run of transactions is a run of the untimed cache on all their beats. -/
theorem refines_mapM_execute (h : Rests i.geometry u s) (transactions : List Transaction) :
    Returns (transactions.mapM i.execute) s fun words s' =>
      Rests i.geometry (u.run i.geometry (transactions.flatMap (·.toBeats i.geometry))).2 s' ∧
        words.flatten = (u.run i.geometry (transactions.flatMap (·.toBeats i.geometry))).1 := by
  induction transactions generalizing u s with
  | nil => exact returns_pure ⟨h, rfl⟩
  | cons t transactions ih =>
      rw [List.mapM_cons]
      refine (i.refines_execute h t).bind fun now s₁ ⟨h₁, hnow⟩ => ?_
      refine (ih h₁).bind fun later s₂ ⟨h₂, hlater⟩ => ?_
      rw [List.flatMap_cons, Untimed.run_append]
      refine returns_pure ⟨h₂, ?_⟩
      rw [List.flatten_cons, hnow, hlater]

end Initiator

/-! ## From a cold cache on -/

namespace MemoryStore

variable {L : Type}

/-- The blocks of an empty store after some writes, each under a byte enable. -/
def preloaded (backing : Config.Backing) (contents : List (Nat × Block × Nat)) : Nat → Block :=
  ((empty backing ()).preload contents).readBlock

/-- The latencies of a store do not show in its blocks. -/
theorem readBlock_preload_empty (backing : Config.Backing) (latency : L)
    (contents : List (Nat × Block × Nat)) :
    ((empty backing latency).preload contents).readBlock = preloaded backing contents := by
  have hforget (m : MemoryStore L) : { m.preload contents with latency := () } =
      ({ m with latency := () } : MemoryStore Unit).preload contents := by
    induction contents generalizing m with
    | nil => rfl
    | cons w contents ih => exact ih (m.writeBlock ..)
  rw [preloaded]
  exact congrArg readBlock (hforget (empty backing latency))

end MemoryStore

namespace Simulator

variable {L : Type}

/-- A fresh simulator is at rest. -/
theorem rests_ofContents {config : Config} {g : Geometry}
    (hg : Geometry.ofConfig config.cache config.backing = .ok g) (latency : L)
    (contents : List (Nat × Block × Nat)) :
    Rests g (.cold g (MemoryStore.preloaded config.backing contents))
      (ofContents config g latency contents) where
  inStep := {
    valid := Cache.valid_ofGeometry g
    watches := watches_ofStore g _ config.general
    fits := (MemoryStore.fits_empty hg latency).preload contents
    serves := MemoryStore.pending_preload _ contents }
  geometry_eq := rfl
  shows := {
    lines := fun _ hi => Cache.line?_ofGeometry g hi
    blocks := fun addr _ => congrFun (MemoryStore.readBlock_preload_empty ..) addr
    log := rfl
    counters := rfl }
  serving := rfl
  fresh := rfl

variable [LatencyModel L]

/-- **The clocked cache refines the untimed one**, for every configuration, latency model, contents of the
store and list of transactions. When all transactions succeed, the words that they return are those that the
untimed cache reads on their beats, one beat after the other, and at the end the lines, the blocks of the
store, the operations on the link and the counters are those of the untimed cache. None of them depends on
the latencies, on the timeout, or on how the beats are grouped into bursts. -/
theorem refines_untimed {config : Config} {g : Geometry}
    (hg : Geometry.ofConfig config.cache config.backing = .ok g) (latency : L)
    (contents : List (Nat × Block × Nat)) (timeout : Nat) (transactions : List Transaction)
    {words : List (List Nat)} {s : Simulator (MemoryStore L)}
    (h : (transactions.mapM (Initiator.mk g timeout).execute).run (ofContents config g latency contents) =
      .ok words s) :
    let u := Untimed.run g (.cold g (MemoryStore.preloaded config.backing contents))
      (transactions.flatMap (·.toBeats g))
    words.flatten = u.1 ∧ s.cache.geometry = g ∧ s.Shows u.2 := by
  have hreturns := (Initiator.mk g timeout).refines_mapM_execute (rests_ofContents hg latency contents)
    transactions
  rw [Returns, h] at hreturns
  obtain ⟨hrests, hwords⟩ := hreturns
  exact ⟨hwords, hrests.geometry_eq, hrests.shows⟩

/-- A write to a block of the store, which another block drives out again before a burst reads both of its
words. -/
theorem refines_untimed_tiny :
    ∃ words s,
      ([.write 1 0xabcd 1, .read 4, .burstRead 0 .linear 2].mapM (Initiator.mk tiny 20).execute).run
        (ofContents tinyConfig tiny (Timing.fixed 1) [(0, [1, 2, 3, 4], 15)]) = .ok words s ∧
      words.flatten = [0, 0x0201, 0x04cd] ∧ s.cache.counters.timeless.evictions = 1 := by
  have hok : (([.write 1 0xabcd 1, .read 4, .burstRead 0 .linear 2].mapM (Initiator.mk tiny 20).execute).run'
      (ofContents tinyConfig tiny (Timing.fixed 1) [(0, [1, 2, 3, 4], 15)])).isSome = true := by
    decide +kernel
  cases hrun : ([.write 1 0xabcd 1, .read 4, .burstRead 0 .linear 2].mapM (Initiator.mk tiny 20).execute).run
      (ofContents tinyConfig tiny (Timing.fixed 1) [(0, [1, 2, 3, 4], 15)]) with
  | ok words s =>
      obtain ⟨hwords, _, hshows⟩ := refines_untimed ofConfig_tinyConfig (Timing.fixed 1)
        [(0, [1, 2, 3, 4], 15)] 20 [.write 1 0xabcd 1, .read 4, .burstRead 0 .linear 2] hrun
      refine ⟨words, s, rfl, hwords.trans (by decide +kernel), ?_⟩
      rw [hshows.counters]
      decide +kernel
  | error e s =>
      delta EStateM.run' at hok
      rw [hrun] at hok
      cases hok

end Simulator

end WriteBack
