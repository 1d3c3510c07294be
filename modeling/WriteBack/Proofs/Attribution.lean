import WriteBack.Proofs.Conservation

/-!
# WriteBack.Proofs.Attribution

Which beats count as hits, and which as retries. The cache remembers that a request has missed until it
acknowledges a beat, and that may be any beat: one that is given up after its miss leaves the mark behind
(`LeftOver`). The next beat then counts as a retry, also when it hits at its first try
(`first_try_counts_as_retry`). So a beat is a retry when it has missed itself or when such a mark is left over
(`beats_attributed`). Without failures nothing is left over.
-/

namespace WriteBack

open Link

/-- The counter for beats that write or read, at their first try or not. -/
def Counters.beatCount (n : Counters) : (we retry : Bool) → Nat
  | false, false => n.readHits
  | true, false => n.writeHits
  | false, true => n.readRetries
  | true, true => n.writeRetries

/-- A cycle counts the beat that it acknowledges in one of the four counters, and no other beat. -/
theorem Cache.beatCount_next (c : Cache) (bus : Bus.Request) (link : Response) (we retry : Bool) :
    (c.next bus link).counters.beatCount we retry = c.counters.beatCount we retry +
      ((c.busResponse bus).ack && (we == bus.we && retry == c.retrying)).toNat := by
  rw [counters_next, busResponse]
  cases c.state with
  | check =>
      cases hacks : c.acks bus <;> cases hwe : bus.we <;> cases hretry : c.retrying <;> cases we <;>
        cases retry <;> simp [Counters.beatCount, countCheck, hacks, hwe, hretry]
  | evict p => cases we <;> cases retry <;> rfl
  | refill p => cases we <;> cases retry <;> rfl

namespace Simulator

/-! ## Misses that are left over -/

section Runs

variable {S : Type}

/-- The lookup of the cycle found another block in its line: the cache stops serving requests. -/
def Cycle.DecidesMiss (c : Cycle S) : Prop :=
  c.before.cache.state = .check ∧ c.after.cache.state ≠ .check

instance (c : Cycle S) : Decidable c.DecidesMiss := inferInstanceAs (Decidable (_ ∧ _))

/-- In one of the cycles a request missed, and no beat has been acknowledged since. -/
def LeftOver (cycles : List (Cycle S)) : Prop :=
  ∃ earlier m later, cycles = earlier ++ m :: later ∧ m.DecidesMiss ∧ ∀ c ∈ later, c.response.ack = false

variable {cycles xs ys : List (Cycle S)}

/-- At first no miss is left over. -/
theorem not_leftOver_nil : ¬ LeftOver ([] : List (Cycle S)) := by
  rintro ⟨earlier, m, later, hcycles, _⟩
  cases earlier <;> cases hcycles

/-- A miss is left over from the later cycles, or from the earlier ones if no later one acknowledges anything. -/
theorem leftOver_append :
    LeftOver (xs ++ ys) ↔ LeftOver ys ∨ (LeftOver xs ∧ ∀ c ∈ ys, c.response.ack = false) := by
  constructor
  · rintro ⟨earlier, m, later, hcycles, hmiss, hsilent⟩
    rcases List.append_eq_append_iff.mp hcycles with ⟨rest, rfl, rfl⟩ | ⟨rest, rfl, hlater⟩
    · exact .inl ⟨rest, m, later, rfl, hmiss, hsilent⟩
    · cases rest with
      | nil => exact .inl ⟨[], m, later, hlater.symm, hmiss, hsilent⟩
      | cons m' rest =>
          obtain ⟨rfl, rfl⟩ := List.cons.inj hlater
          obtain ⟨hrest, hys⟩ := List.forall_mem_append.mp hsilent
          exact .inr ⟨⟨earlier, m, rest, rfl, hmiss, hrest⟩, hys⟩
  · rintro (⟨earlier, m, later, rfl, hmiss, hsilent⟩ | ⟨⟨earlier, m, later, rfl, hmiss, hsilent⟩, hys⟩)
    · exact ⟨xs ++ earlier, m, later, by rw [List.append_assoc], hmiss, hsilent⟩
    · exact ⟨earlier, m, later ++ ys, by simp, hmiss, List.forall_mem_append.mpr ⟨hsilent, hys⟩⟩

/-- Over cycles without an acknowledgement every miss stays. -/
theorem leftOver_of_silent (h : ∀ c ∈ cycles, c.response.ack = false) :
    LeftOver cycles ↔ ∃ c ∈ cycles, c.DecidesMiss := by
  constructor
  · rintro ⟨earlier, m, later, rfl, hmiss, _⟩
    exact ⟨m, by simp, hmiss⟩
  · rintro ⟨m, hm, hmiss⟩
    obtain ⟨earlier, later, rfl⟩ := List.append_of_mem hm
    exact ⟨earlier, m, later, rfl, hmiss, fun c hc => h c (by simp [hc])⟩

theorem leftOver_singleton (c : Cycle S) : LeftOver [c] ↔ c.DecidesMiss := by
  constructor
  · rintro ⟨earlier, m, later, hcycles, hmiss, _⟩
    obtain rfl : m = c := List.mem_singleton.mp (hcycles ▸ by simp)
    exact hmiss
  · exact fun h => ⟨[], c, [], rfl, h, List.forall_mem_nil _⟩

variable [BackingStore S] {start s s' : Simulator S}

/-- What the cache remembers over a cycle. -/
theorem retrying_next (s : Simulator S) (bus : Bus.Request) :
    (s.next bus).cache.retrying = true ↔
      (s.seen bus).DecidesMiss ∨ (s.cache.retrying = true ∧ (s.seen bus).response.ack = false) := by
  have hack := s.cache.ack_busResponse bus
  rw [← Bool.not_eq_true, Cycle.DecidesMiss, seen, hack, cache_next]
  cases hs : s.cache.state with
  | check =>
      rw [Cache.next_check hs, Cache.retrying_checkEdge, Cache.state_checkEdge]
      cases hmiss : s.cache.misses bus with
      | true => cases s.cache.tags.out.dirty <;> simp
      | false => simp
  | evict p => simp [Cache.next_evict hs, Cache.retrying_evictEdge]
  | refill p => simp [Cache.next_refill hs, Cache.retrying_refillEdge]

/-- **What the cache remembers** at the end of a run is that a miss is left over. -/
theorem Trace.retrying_iff (h : Trace start cycles s) (hstart : start.cache.retrying = false) :
    s.cache.retrying = true ↔ LeftOver cycles := by
  induction h with
  | nil => simp [hstart, not_leftOver_nil]
  | @snoc cycles s s' bus response _ hstep ih =>
      obtain ⟨_, _, rfl, rfl⟩ := run_tick_eq_ok.mp hstep
      rw [retrying_next, ih, leftOver_append, List.forall_mem_singleton]
      exact or_congr_left (leftOver_singleton _).symm

/-- The misses are counted as they are decided. -/
theorem Trace.misses_eq (h : Trace start cycles s) :
    s.cache.counters.misses = start.cache.counters.misses + cycles.countP fun c => c.DecidesMiss := by
  induction h with
  | nil => rfl
  | @snoc cycles s s' bus response _ hstep ih =>
      obtain ⟨_, _, rfl, rfl⟩ := run_tick_eq_ok.mp hstep
      rw [countP_append_singleton, ← Nat.add_assoc, ← ih, cache_next, Cache.counters_next]
      cases hs : s.cache.state with
      | check =>
          have hmiss : (s.cache.next bus s.link.drive).state ≠ .check ↔ s.cache.misses bus = true := by
            rw [Cache.next_check hs, Cache.state_checkEdge]
            cases s.cache.misses bus <;> cases s.cache.tags.out.dirty <;> simp
          simp [Cycle.DecidesMiss, hs, hmiss, Cache.countCheck]
      | evict p => simp [Cycle.DecidesMiss, hs, Cache.countStall]
      | refill p => simp [Cycle.DecidesMiss, hs, Cache.countStall]

/-! ## The cycles of a beat -/

/-- The cycles in which a request is presented: it waits, and then it is acknowledged. -/
structure Presented (r : Bus.Request) (s : Simulator S) (waiting : List (Cycle S)) (last : Cycle S)
    (s' : Simulator S) : Prop where
  trace : Trace s (waiting ++ [last]) s'
  bus_eq : ∀ c ∈ waiting ++ [last], c.bus = r
  silent : ∀ c ∈ waiting, c.response.ack = false
  acked : last.response.ack = true

/-- A beat that returns was presented until its acknowledgement. -/
theorem exists_presented {i : Initiator} {r : Bus.Request} {tries word : Nat}
    (h : (i.hold r tries).run s = .ok word s') : ∃ waiting last, Presented r s waiting last s' := by
  induction tries generalizing s with
  | zero => cases h
  | succ tries ih =>
      obtain ⟨response, s₁, hrun, hrest⟩ := exists_run_of_bind h
      have hfirst : Trace s [⟨s, r, response, s₁⟩] s₁ := Trace.nil.snoc hrun
      cases hack : response.ack with
      | true =>
          rw [hack] at hrest
          cases hrest
          exact ⟨[], _, hfirst, by simp, List.forall_mem_nil _, hack⟩
      | false =>
          rw [hack] at hrest
          obtain ⟨waiting, last, htrace, hbus, hsilent, hacked⟩ := ih hrest
          refine ⟨⟨s, r, response, s₁⟩ :: waiting, last, hfirst.append htrace, ?_, ?_, hacked⟩
          · exact List.forall_mem_cons.mpr ⟨rfl, hbus⟩
          · exact List.forall_mem_cons.mpr ⟨hack, hsilent⟩

/-- Waiting counts no beat. -/
theorem Trace.beatCount_eq (h : Trace start cycles s) (hsilent : ∀ c ∈ cycles, c.response.ack = false)
    (we retry : Bool) : s.cache.counters.beatCount we retry = start.cache.counters.beatCount we retry := by
  induction h with
  | nil => rfl
  | snoc _ hstep ih =>
      obtain ⟨hearlier, hlast⟩ := List.forall_mem_append.mp hsilent
      obtain ⟨_, _, rfl, rfl⟩ := run_tick_eq_ok.mp hstep
      have hack := hlast _ List.mem_cons_self
      dsimp only at hack
      rw [cache_next, Cache.beatCount_next, hack, ih hearlier]
      rfl

/-- **A beat** counts once. It is a retry when it missed, or when a miss was left over before it. -/
theorem Presented.beatCount_eq {r : Bus.Request} {waiting : List (Cycle S)} {last : Cycle S}
    (h : Presented r s waiting last s') (hcycles : Trace start cycles s)
    (hstart : start.cache.retrying = false) :
    ∃ retry : Bool, (retry = true ↔ (∃ c ∈ waiting, c.DecidesMiss) ∨ LeftOver cycles) ∧
      ∀ we late, s'.cache.counters.beatCount we late =
        s.cache.counters.beatCount we late + (we == r.we && late == retry).toNat := by
  obtain ⟨htrace, hbus, hsilent, hacked⟩ := h
  obtain ⟨hwaiting, hstep, hend⟩ := htrace.of_mem
  cases hend.eq_of_nil rfl
  have hr : last.bus = r := hbus last (by simp)
  obtain ⟨_, _, hresponse, hafter⟩ := run_tick_eq_ok.mp hstep
  refine ⟨last.before.cache.retrying, ?_, fun we late => ?_⟩
  · rw [(hcycles.append hwaiting).retrying_iff hstart, leftOver_append, leftOver_of_silent hsilent,
      and_iff_left hsilent]
  · rw [hafter, cache_next, Cache.beatCount_next, ← hresponse, hacked, Bool.true_and, hr,
      hwaiting.beatCount_eq hsilent]

end Runs

/-! ## What is done with a simulator -/

/-- A transaction with its own timeout, or some cycles with an idle bus. -/
inductive Job where
  | transact (timeout : Nat) (t : Transaction)
  | idle (cycles : Nat)
deriving DecidableEq, Repr

section Jobs

variable {S : Type} [BackingStore S]

/-- Does a job, and returns the words that it read. -/
def Job.run (g : Geometry) : Job → Run S (List Nat)
  | .transact timeout t => (Initiator.mk g timeout).execute t
  | .idle cycles => do
    Simulator.idle cycles
    return []

/-- A simulator after some jobs, whatever became of them. -/
def after (g : Geometry) (s : Simulator S) (history : List Job) : Simulator S :=
  history.foldl (fun s job => (job.run g).leave s) s

variable {I : Simulator S → Prop} {E : RunError → Simulator S → Prop} {g : Geometry}
variable {start s s' : Simulator S}

/-- What every cycle carries on is carried through a job. -/
theorem Carried.job (h : Carried I E) (hs : I s) (job : Job) :
    Ends (job.run g) s (fun _ s' => I s') E := by
  cases job with
  | transact timeout t => exact h.execute hs ⟨g, timeout⟩ t
  | idle cycles => exact (h.idle hs cycles).bind (fun _ _ => id) fun _ _ _ hs' => ends_pure hs'

/-- It is carried through a history of jobs. -/
theorem Carried.after (h : Carried I fun _ s' => I s') (hs : I s) (history : List Job) :
    I (s.after g history) := by
  induction history generalizing s with
  | nil => exact hs
  | cons job history ih => exact ih (h.job hs job).leave

/-- Jobs that all succeed lead where they lead whatever becomes of them. -/
theorem after_eq_of_ok {history : List Job} {words : List (List Nat)}
    (h : (history.mapM (Job.run g)).run s = .ok words s') : s.after g history = s' := by
  induction history generalizing s words with
  | nil =>
      cases h
      rfl
  | cons job history ih =>
      rw [List.mapM_cons] at h
      obtain ⟨_, s₁, hjob, h⟩ := exists_run_of_bind h
      obtain ⟨_, _, hrest, h⟩ := exists_run_of_bind h
      cases h
      have hleave : (job.run g).leave s = s₁ := by rw [Run.leave, hjob]
      rw [← ih hrest, ← hleave]
      rfl

/-- Where no cycle breaks a rule of the link, a cycle that fails does nothing. -/
theorem carried_reaches_of_watches
    (hwatches : ∀ s, Reaches start s → s.link.monitor.Watches s.cache) :
    Carried (Reaches start) fun _ s' => Reaches start s' where
  tick s bus h := by
    have hends := (carried_reaches start).tick s bus h
    have hfails := ends_tick (hwatches s h) bus
    rw [Ends] at hends hfails ⊢
    cases hrun : (tick bus).run s with
    | ok response s' =>
        rw [hrun] at hends
        exact hends
    | error e s' =>
        rw [hrun] at hfails
        exact hfails.2 ▸ h
  giveUp _ _ _ h := h

end Jobs

variable {L : Type} [LatencyModel L] {config : Config} {g : Geometry} {u : Untimed}
variable {s s' : Simulator (MemoryStore L)}

/-- A job that returns leaves the simulator at rest. -/
theorem Rests.run_job (h : Rests g u s) (job : Job) :
    Returns (job.run g) s fun _ s' => ∃ u', Rests g u' s' := by
  cases job with
  | transact timeout t =>
      exact ((Initiator.mk g timeout).refines_execute h t).mono fun _ _ hs' => ⟨_, hs'.1⟩
  | idle cycles =>
      exact (Initiator.refines_idle h cycles).bind fun _ _ hs' => returns_pure ⟨u, hs'⟩

/-- Jobs that all succeed leave the simulator at rest. -/
theorem Rests.run_jobs (h : Rests g u s) {history : List Job} {words : List (List Nat)}
    (hrun : (history.mapM (Job.run g)).run s = .ok words s') : ∃ u', Rests g u' s' := by
  have hreturns : Returns (history.mapM (Job.run g)) s fun _ s' => ∃ u', Rests g u' s' :=
    returns_mapM (fun job _ _ ⟨_, hs⟩ => hs.run_job job) ⟨u, h⟩
  exact hreturns.of_run_eq_ok hrun

/-! ## Hits and retries -/

/-- **Beats are attributed** to hits and retries by what the cache remembers, for every configuration, latency
model and content of the store, after any jobs on a fresh simulator, whatever became of each of them, and after
any number of beats of the transaction that comes next.

When the next beat is acknowledged, exactly one of the four counters grows, and by one. It is one of those for
the direction of the beat: a retry, when a miss was decided while the beat was presented or when one was left
over from before, and a hit otherwise. If all the jobs have succeeded, nothing is left over. -/
theorem beats_attributed (hg : Geometry.ofConfig config.cache config.backing = .ok g) (latency : L)
    (contents : List (Nat × Block × Nat)) (history : List Job) (timeout : Nat) (t : Transaction) (j : Nat)
    (r : Bus.Request) {observed : List Nat} {word : Nat} {middle : Simulator (MemoryStore L)}
    (hmiddle : ((((Initiator.mk g timeout).requests t).take j).mapM (Initiator.mk g timeout).beat).run
      ((ofContents config g latency contents).after g history) = .ok observed middle)
    (hbeat : ((Initiator.mk g timeout).beat r).run middle = .ok word s') :
    ∃ cycles waiting last, Trace (ofContents config g latency contents) cycles middle ∧
      Presented r middle waiting last s' ∧
      (∃ retry : Bool, (retry = true ↔ (∃ c ∈ waiting, c.DecidesMiss) ∨ LeftOver cycles) ∧
        ∀ we late, s'.cache.counters.beatCount we late =
          middle.cache.counters.beatCount we late + (we == r.we && late == retry).toNat) ∧
      ((∃ words s, (history.mapM (Job.run g)).run (ofContents config g latency contents) = .ok words s) →
        ¬ LeftOver cycles) := by
  have hwatches (s) (h : Reaches (ofContents config g latency contents) s) :
      s.link.monitor.Watches s.cache := by
    obtain ⟨cycles, ht⟩ := h
    exact Trace.watches ht
  have hcarried := carried_reaches_of_watches hwatches
  have hreaches := hcarried.mapM_beat (hcarried.after (g := g) ⟨[], .nil⟩ history) ⟨g, timeout⟩
    (((Initiator.mk g timeout).requests t).take j)
  obtain ⟨cycles, hcycles⟩ := hreaches.of_run_eq_ok hmiddle
  obtain ⟨waiting, last, hpresented⟩ := exists_presented hbeat
  refine ⟨cycles, waiting, last, hcycles, hpresented, hpresented.beatCount_eq hcycles rfl, ?_⟩
  rintro ⟨words, s, hsucceed⟩
  obtain ⟨u, hrests⟩ := (rests_ofContents hg latency contents).run_jobs hsucceed
  have hwe : ∀ r ∈ ((Initiator.mk g timeout).requests t).take j, r.we = !t.reads :=
    fun r hr => (Initiator.mk g timeout).we_requests t r (List.mem_of_mem_take hr)
  have hbeats := (Initiator.mk g timeout).refines_mapM_beat hrests hwe
  rw [after_eq_of_ok hsucceed] at hmiddle
  rw [← hcycles.retrying_iff rfl, (hbeats.of_run_eq_ok hmiddle).1.fresh]
  decide

/-- A configuration with two lines of two 16-bit words, for 3-bit addresses. -/
def pairConfig : Config where
  cache := { sizeBytes := 8, dataWidth := 16 }
  backing := { addrWidth := 2, dataWidth := 32 }

/-- The geometry of `pairConfig`. -/
def pair : Geometry := (Geometry.ofConfig pairConfig.cache pairConfig.backing).toOption.get rfl

theorem ofConfig_pairConfig : Geometry.ofConfig pairConfig.cache pairConfig.backing = .ok pair := rfl

/-- The simulator after a block has been read, and then a read of the other line has been given up on its second
cycle. The refill goes on while the bus idles. -/
def afterGivenUpRead : Simulator (MemoryStore Timing) :=
  (ofContents pairConfig pair (Timing.ofConfig pairConfig.backing) []).after pair
    [.transact 256 (.read 0), .transact 1 (.read 2), .idle 20]

/-- The next read is counted in the direction of its request. -/
theorem beats_attributed_given_up :
    ∃ s' cycles waiting last, Trace (ofContents pairConfig pair (Timing.ofConfig pairConfig.backing) []) cycles
        afterGivenUpRead ∧
      Presented (.read 0 3) afterGivenUpRead waiting last s' ∧
      ∃ retry : Bool, (retry = true ↔ (∃ c ∈ waiting, c.DecidesMiss) ∨ LeftOver cycles) ∧
        s'.cache.counters.beatCount false retry = afterGivenUpRead.cache.counters.beatCount false retry + 1 := by
  have hok : (((Initiator.mk pair 20).beat (.read 0 3)).run' afterGivenUpRead).isSome = true := by
    decide +kernel
  cases hrun : ((Initiator.mk pair 20).beat (.read 0 3)).run afterGivenUpRead with
  | ok word s' =>
      unfold afterGivenUpRead at hrun ⊢
      obtain ⟨cycles, waiting, last, htrace, hpresented, ⟨retry, hretry, hcount⟩, _⟩ :=
        beats_attributed ofConfig_pairConfig _ _ _ 20 (.read 0) 0 (.read 0 3) rfl hrun
      have hread : (false == (Bus.Request.read 0 3).we && retry == retry).toNat = 1 := by
        cases retry <;> rfl
      have hone := hcount false retry
      rw [hread] at hone
      exact ⟨s', cycles, waiting, last, htrace, hpresented, retry, hretry, hone⟩
  | error e s' =>
      delta EStateM.run' at hok
      rw [hrun] at hok
      cases hok

/-- **A hit at the first try that counts as a retry.** The block of the read has been there all the time: the
beat is acknowledged without a miss, and still it is the retries that grow, for the read that was given up. -/
theorem first_try_counts_as_retry :
    ∃ word s' waiting last,
      ((Initiator.mk pair 20).beat (.read 0 3)).run afterGivenUpRead = .ok word s' ∧
      Presented (.read 0 3) afterGivenUpRead waiting last s' ∧
      (∀ c ∈ waiting ++ [last], ¬ c.DecidesMiss) ∧
      s'.cache.counters.readHits = afterGivenUpRead.cache.counters.readHits ∧
      s'.cache.counters.readRetries = afterGivenUpRead.cache.counters.readRetries + 1 := by
  have hcounts : (match ((Initiator.mk pair 20).beat (.read 0 3)).run afterGivenUpRead with
      | .ok _ s' => some (s'.cache.counters.misses, s'.cache.counters.readHits, s'.cache.counters.readRetries)
      | .error .. => none) =
        some (afterGivenUpRead.cache.counters.misses, afterGivenUpRead.cache.counters.readHits,
          afterGivenUpRead.cache.counters.readRetries + 1) := by
    decide +kernel
  cases hrun : ((Initiator.mk pair 20).beat (.read 0 3)).run afterGivenUpRead with
  | ok word s' =>
      rw [hrun] at hcounts
      simp only [Option.some.injEq, Prod.mk.injEq] at hcounts
      obtain ⟨hmisses, hhits, hretries⟩ := hcounts
      obtain ⟨waiting, last, hpresented⟩ := exists_presented hrun
      have hdecided := hpresented.trace.misses_eq
      rw [hmisses, Nat.left_eq_add, List.countP_eq_zero] at hdecided
      exact ⟨word, s', waiting, last, rfl, hpresented, by simpa using hdecided, hhits, hretries⟩
  | error e s' =>
      rw [hrun] at hcounts
      cases hcounts

end Simulator

end WriteBack
