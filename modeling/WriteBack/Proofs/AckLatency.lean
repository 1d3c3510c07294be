import WriteBack.Proofs.AckTick
import WriteBack.Proofs.Refinement

/-!
# WriteBack.Proofs.AckLatency

How long the beats of transactions wait, on the stores of a configuration. Their latency never exceeds a bound
(`Timing.Within`), and between two beats the cache serves requests, so each beat is acknowledged on a tick that
is known from its line (`AckTick`). An initiator that waits for twice the bound and nine cycles more never gives
up on a beat (`acks_in_time`).
-/

namespace WriteBack

open Link

/-! ## The latencies of a configuration -/

/-- The longest latency of a configuration, its times added up as numbers: sums of words are never longer. -/
def Config.Backing.maxLatency (backing : Config.Backing) : Nat :=
  match backing.controller with
  | .simple => backing.latency.toNat
  | .dram => backing.tPre.toNat + backing.tRas.toNat + backing.tCas.toNat

/-- Every access is over in the time to close a row, to open one and to deliver. -/
theorem RowBuffer.latency_le (b : RowBuffer) (addr : Nat) : b.latency addr ≤ b.tPre + b.tRas + b.tCas := by
  have hopen := Word.add_le b.tRas b.tCas
  have hclose := Word.add_le b.tPre b.tRas
  have hall := Word.add_le (Word.add b.tPre b.tRas) b.tCas
  rw [latency]
  cases b.openRow with
  | none => dsimp only; omega
  | some row => dsimp only; split <;> omega

namespace Timing

/-- No access takes longer than `bound`, now or later, even where its time would not fit a word. -/
def Within (bound : Nat) : Timing → Prop
  | .fixed n => n ≤ bound
  | .rowBuffer b => b.tPre + b.tRas + b.tCas ≤ bound

/-- The latencies of a configuration are within its longest one. -/
theorem within_ofConfig (backing : Config.Backing) : (ofConfig backing).Within backing.maxLatency := by
  rw [ofConfig, Config.Backing.maxLatency]
  cases backing.controller <;> exact Nat.le_refl _

/-- An access takes no longer than the bound, and the model keeps it. -/
theorem Within.access {bound : Nat} {timing : Timing} (h : timing.Within bound) (addr : Nat) :
    (LatencyModel.access timing addr).1 ≤ bound ∧ (LatencyModel.access timing addr).2.Within bound := by
  cases timing with
  | fixed n => exact ⟨h, h⟩
  | rowBuffer b => exact ⟨Nat.le_trans (b.latency_le addr) h, h⟩

end Timing

theorem MemoryStore.latency_preload {L : Type} (m : MemoryStore L) (writes : List (Nat × Block × Nat)) :
    (m.preload writes).latency = m.latency := by
  induction writes generalizing m with
  | nil => rfl
  | cons w writes ih => exact ih (m.writeBlock ..)

namespace Simulator

/-! ## Between the beats -/

/-- The parts agree, and the store is never slower than `bound`. -/
structure Steady (bound : Nat) (g : Geometry) (s : Simulator (MemoryStore Timing)) : Prop where
  inStep : s.InStep
  geometry_eq : s.cache.geometry = g
  within : s.link.store.latency.Within bound

/-- No request waits for the store. -/
structure Serving (bound : Nat) (g : Geometry) (s : Simulator (MemoryStore Timing)) : Prop
    extends Steady bound g s where
  state_eq : s.cache.state = .check

/-- No request was presented in the last cycle. -/
structure Quiet (bound : Nat) (g : Geometry) (s : Simulator (MemoryStore Timing)) : Prop
    extends Serving bound g s where
  inactive : s.cache.sampled.isActive = false

variable {bound : Nat} {g : Geometry} {s : Simulator (MemoryStore Timing)} {r : Bus.Request}

/-- A cycle keeps the bound. -/
theorem Steady.next (h : Steady bound g s) (bus : Bus.Request) : Steady bound g (s.next bus) where
  inStep := h.inStep.next bus
  geometry_eq := (Cache.geometry_next ..).trans h.geometry_eq
  within := by
    have hlatency : (s.next bus).link.store.latency = _ := MemoryStore.latency_clock s.transfers
    rw [hlatency]
    cases s.transfers.command with
    | none => exact h.within
    | some command => exact (h.within.access _).2

/-- Two accesses and ten ticks are enough for any beat. -/
theorem Steady.ackTick_le (h : Steady bound g s) (victim : Cache.Line) :
    s.ackTick r victim ≤ 10 + 2 * bound := by
  have hwrite := h.within.access (s.link.store.key
    (s.cache.geometry.layout.blockAddr (s.cache.target r).line victim.tag))
  have hread (timing : Timing) (ht : timing.Within bound) : s.readTime r timing ≤ bound := (ht.access _).1
  have hclean := hread _ h.within
  have hdirty := hread _ hwrite.2
  have htime : (s.writeAccess r victim.tag).1 ≤ bound := hwrite.1
  rw [ackTick]
  split
  · omega
  · split
    · dsimp only
      rw [writeAccess] at htime ⊢
      omega
    · omega

/-- The cache goes on serving after an acknowledgement. -/
theorem Steady.serving_of_ack (h : Steady bound g s) (hack : (s.cache.busResponse r).ack = true) :
    Serving bound g (s.next r) where
  toSteady := h.next r
  state_eq := by
    obtain ⟨hs, hacks⟩ := (s.cache.ack_busResponse r).mp hack
    rw [cache_next, Cache.next_check hs, Cache.state_checkEdge, s.cache.misses_eq_false_of_acks r hacks]
    rfl

/-- After an idle cycle nothing is presented. -/
theorem Serving.quiet_next (h : Serving bound g s) : Quiet bound g (s.next .idle) where
  toSteady := h.toSteady.next .idle
  state_eq := by
    rw [cache_next, Cache.next_check h.state_eq, Cache.state_checkEdge]
    rfl
  inactive := by
    rw [cache_next, Cache.next_check h.state_eq]
    rfl

/-- The run has used up its cycles. -/
def Exhausted {S : Type} (e : RunError) (s : Simulator S) : Prop :=
  (∃ cycles, e = .cycleBudget cycles) ∧ s.maxCycles ≤ s.cycle

/-- A cycle fails only when the cycles are used up. -/
theorem ends_tick_exhausted (h : s.InStep) (bus : Bus.Request) :
    Ends (tick bus) s (fun response s' => response = s.cache.busResponse bus ∧ s' = s.next bus)
      fun e s' => s' = s ∧ Exhausted e s := by
  rw [Ends, run_tick_of_watches h.watches]
  by_cases hb : s.maxCycles ≤ s.cycle
  · rw [if_pos hb]
    exact ⟨rfl, ⟨_, rfl⟩, hb⟩
  · rw [if_neg hb]
    exact ⟨rfl, rfl⟩

end Simulator

/-! ## The initiator -/

namespace Initiator

open Simulator

variable {bound : Nat} {g : Geometry} {s : Simulator (MemoryStore Timing)} {r : Bus.Request} {n : Nat}
variable (i : Initiator)

/-- The beats of a transaction are presented within a bus cycle. -/
theorem isActive_requests (t : Transaction) : ∀ r ∈ i.requests t, r.isActive = true := by
  intro r hr
  cases t with
  | read adr => rw [List.mem_singleton.mp hr]; rfl
  | write adr data sel => rw [List.mem_singleton.mp hr]; rfl
  | burstRead adr kind n =>
      rw [requests, readBeats, ← List.map_uncurry_zip_eq_zipWith] at hr
      obtain ⟨_, _, rfl⟩ := List.mem_map.mp hr
      rfl
  | burstWrite adr kind data =>
      rw [requests, writeBeats, ← List.map_uncurry_zip_eq_zipWith] at hr
      obtain ⟨_, _, rfl⟩ := List.mem_map.mp hr
      rfl

/-- Holding a request for long enough ends with its acknowledgement, unless the cycles are used up before. -/
theorem ends_hold_ackedOn (h : s.InStep) (hacked : s.AckedOn r n) {tries : Nat} (hn : n ≤ tries) :
    Ends (i.hold r tries) s (fun _ s' => s' = s.presenting r n)
      fun e s' => Exhausted e s' ∧ s'.maxCycles = s.maxCycles ∧ s'.cycle < s.cycle + n := by
  induction tries generalizing s n with
  | zero => rcases hacked.cases with ⟨rfl, _⟩ | ⟨m, rfl, _⟩ <;> omega
  | succ tries ih =>
      rw [hold]
      refine (ends_tick_exhausted h r).bind (fun e s' hfailed => ?_) fun response s' _ hstep => ?_
      · obtain ⟨hs', he⟩ := hfailed
        subst hs'
        have hpos : 0 < n := by rcases hacked.cases with ⟨rfl, _⟩ | ⟨m, rfl, _⟩ <;> omega
        exact ⟨he, rfl, by omega⟩
      · obtain ⟨hresponse, hs'⟩ := hstep
        subst hresponse hs'
        rcases hacked.cases with ⟨rfl, hack⟩ | ⟨m, rfl, hack, hrest⟩
        · rw [hack]
          exact ends_pure rfl
        · rw [hack]
          refine (ih (h.next r) hrest (by omega)).mono (fun _ _ => id) fun e s' hlate => ?_
          obtain ⟨he, hmax, hcycle⟩ := hlate
          rw [cycle_next] at hcycle
          exact ⟨he, hmax, by omega⟩

/-- The acknowledgement of a request comes on tick `n` of its presentation and not before, and a beat that may
wait for so long returns with it, if there are cycles enough. -/
structure AcksOn (s : Simulator (MemoryStore Timing)) (r : Bus.Request) (n : Nat) : Prop where
  acked : s.AckedOn r n
  returns : n ≤ i.timeout + 1 → s.cycle + n ≤ s.maxCycles →
    ∃ word, (i.beat r).run s = .ok word (s.presenting r n)

theorem acksOn (h : s.InStep) (hacked : s.AckedOn r n) : i.AcksOn s r n where
  acked := hacked
  returns hn hb := by
    have hends := i.ends_hold_ackedOn h hacked hn
    rw [Ends] at hends
    rw [beat]
    cases hrun : (i.hold r (i.timeout + 1)).run s with
    | ok word s' =>
        rw [hrun] at hends
        exact ⟨word, by rw [hends]⟩
    | error e s' =>
        rw [hrun] at hends
        obtain ⟨⟨_, hout⟩, hmax, hcycle⟩ := hends
        omega

/-- However long a request is held, the cache serves requests after its acknowledgement. -/
theorem serving_hold (h : Steady bound g s) (tries : Nat) :
    Ends (i.hold r tries) s (fun _ s' => Serving bound g s') fun _ _ => True := by
  induction tries generalizing s with
  | zero => exact ends_throw trivial
  | succ tries ih =>
      rw [hold]
      refine (ends_tick_exhausted h.inStep r).bind (fun _ _ _ => trivial) fun response s' _ hstep => ?_
      obtain ⟨hresponse, hs'⟩ := hstep
      subst hresponse hs'
      cases hack : (s.cache.busResponse r).ack with
      | true => exact ends_pure (h.serving_of_ack hack)
      | false => exact ih (h.next r)

/-- Where every request can be waited for, nothing but the end of the cycles stops a computation. -/
def Patient (bound : Nat) (e : RunError) (s : Simulator (MemoryStore Timing)) : Prop :=
  9 + 2 * bound ≤ i.timeout → Exhausted e s

/-- A beat is acknowledged; if it can be waited for, only the end of the cycles prevents that. -/
theorem ends_beat (h : Serving bound g s) (hactive : r.isActive = true) :
    Ends (i.beat r) s (fun _ s' => Serving bound g s') (i.Patient bound) := by
  obtain ⟨victim, _, n, hn, hacked⟩ := exists_ackedOn h.inStep h.state_eq hactive
  have hle := h.ackTick_le (r := r) victim
  have hserving := i.serving_hold h.toSteady (r := r) (i.timeout + 1)
  rw [Ends, beat]
  cases hrun : (i.hold r (i.timeout + 1)).run s with
  | ok word s' => exact hserving.of_run_eq_ok hrun
  | error e s' =>
      intro hlong
      have hends := i.ends_hold_ackedOn h.inStep hacked (show n ≤ i.timeout + 1 by omega)
      exact (hends.of_run_eq_error hrun).1

theorem ends_mapM_beat_serving (h : Serving bound g s) {requests : List Bus.Request}
    (hactive : ∀ r ∈ requests, r.isActive = true) :
    Ends (requests.mapM i.beat) s (fun _ s' => Serving bound g s') (i.Patient bound) :=
  ends_mapM (fun r hr _ hs => i.ends_beat hs (hactive r hr)) h

/-- Beats that keep `I`, and then an idle cycle that leads from there back to `J`. -/
theorem ends_execute_of_idle {S : Type} [BackingStore S] {s : Simulator S} {I J : Simulator S → Prop}
    {E : RunError → Simulator S → Prop} {t : Transaction} (hs : J s)
    (hbeats : Ends ((i.requests t).mapM i.beat) s (fun _ s' => I s') E)
    (hidle : ∀ s, I s → Ends (tick .idle) s (fun _ s' => J s') E) :
    Ends (i.execute t) s (fun _ s' => J s') E := by
  rw [i.execute_eq]
  cases hcount : t.beats with
  | zero =>
      rw [List.eq_nil_of_length_eq_zero ((i.length_requests t).trans hcount)]
      exact ends_pure hs
  | succ n =>
      refine hbeats.bind (fun _ _ => id) fun _ s' _ hs' => ?_
      rw [show min 1 (n + 1) = 1 by omega]
      refine Ends.bind (P := fun _ s' => J s') (D := E) ?_ (fun _ _ => id)
        fun _ _ _ hs'' => ends_pure hs''
      exact (hidle s' hs').bind (fun _ _ => id) fun _ _ _ hs'' => ends_pure hs''

/-- **A transaction** leaves the bus quiet, and with enough patience only the end of the cycles can stop it. -/
theorem ends_execute_quiet (h : Quiet bound g s) (t : Transaction) :
    Ends (i.execute t) s (fun _ s' => Quiet bound g s') (i.Patient bound) := by
  refine i.ends_execute_of_idle h (i.ends_mapM_beat_serving h.toServing (i.isActive_requests t))
    fun s' hs' => ?_
  refine (ends_tick_exhausted hs'.inStep .idle).mono (fun _ s'' ⟨_, hs''⟩ => ?_) fun e s'' ⟨hs'', he⟩ _ => ?_
  · exact hs'' ▸ hs'.quiet_next
  · exact hs'' ▸ he

/-- When the cycles are used up, a beat does nothing. -/
theorem ends_beat_exhausted (h : s.maxCycles ≤ s.cycle) :
    Ends (i.beat r) s (fun _ _ => False) fun e s' => s' = s ∧ Exhausted e s := by
  refine Ends.bind (P := fun _ _ => False) (D := fun e s' => s' = s ∧ Exhausted e s) ?_ (fun _ _ => id)
    fun _ _ _ => False.elim
  rw [Ends, run_tick, if_pos h]
  exact ⟨rfl, ⟨_, rfl⟩, h⟩

/-- When the cycles are used up, no transaction does anything. -/
theorem ends_execute_exhausted (h : s.maxCycles ≤ s.cycle) (t : Transaction) :
    Ends (i.execute t) s (fun _ s' => s' = s) fun e s' => s' = s ∧ Exhausted e s := by
  rw [i.execute_eq, ← i.length_requests t]
  cases i.requests t with
  | nil => exact ends_pure rfl
  | cons r requests =>
      rw [List.mapM_cons, bind_assoc]
      exact (i.ends_beat_exhausted h).bind (fun _ _ => id) fun _ _ _ => False.elim

end Initiator

namespace Simulator

variable {bound : Nat} {g : Geometry} {s : Simulator (MemoryStore Timing)}

/-- A history of transactions that all succeed leaves the bus quiet. -/
theorem quiet_history (h : Quiet bound g s) (history : List (Nat × Transaction)) {words : List (List Nat)}
    {s' : Simulator (MemoryStore Timing)}
    (hrun : (history.mapM fun job => (Initiator.mk g job.1).execute job.2).run s = .ok words s') :
    Quiet bound g s' := by
  have hends : Ends (history.mapM fun job => (Initiator.mk g job.1).execute job.2) s
      (fun _ s' => Quiet bound g s') fun _ _ => True :=
    ends_mapM (fun job _ _ hs => ((Initiator.mk g job.1).ends_execute_quiet hs job.2).mono
      (fun _ _ => id) fun _ _ _ => trivial) h
  exact hends.of_run_eq_ok hrun

/-- With enough patience, a transaction leaves the bus quiet, or ends because the cycles are used up. -/
theorem ends_execute_patient (h : Quiet bound g s ∨ s.maxCycles ≤ s.cycle) {timeout : Nat}
    (hlong : 9 + 2 * bound ≤ timeout) (t : Transaction) :
    Ends ((Initiator.mk g timeout).execute t) s
      (fun _ s' => Quiet bound g s' ∨ s'.maxCycles ≤ s'.cycle) Exhausted := by
  rcases h with hquiet | hout
  · exact ((Initiator.mk g timeout).ends_execute_quiet hquiet t).mono (fun _ _ => .inl)
      fun _ _ hpatient => hpatient hlong
  · refine ((Initiator.mk g timeout).ends_execute_exhausted hout t).mono (fun _ s' hs' => ?_) fun e s' hfailed => ?_
    · exact .inr (hs' ▸ hout)
    · exact hfailed.1 ▸ hfailed.2

/-- So does a transaction after any others, whatever became of them. -/
theorem ends_execute_attempts (h : Quiet bound g s ∨ s.maxCycles ≤ s.cycle)
    {history : List (Nat × Transaction)} (hlong : ∀ job ∈ history, 9 + 2 * bound ≤ job.1) {timeout : Nat}
    (htimeout : 9 + 2 * bound ≤ timeout) (t : Transaction) :
    Ends ((Initiator.mk g timeout).execute t) (s.attempts g history)
      (fun _ s' => Quiet bound g s' ∨ s'.maxCycles ≤ s'.cycle) Exhausted := by
  induction history generalizing s with
  | nil => exact ends_execute_patient h htimeout t
  | cons job history ih =>
      obtain ⟨hjob, hrest⟩ := List.forall_mem_cons.mp hlong
      have hleft := Ends.leave (I := fun s' => Quiet bound g s' ∨ s'.maxCycles ≤ s'.cycle)
        ((ends_execute_patient h hjob job.2).mono (fun _ _ => id) fun _ _ he => .inr he.2)
      exact ih hleft hrest

end Simulator

/-! ## A checked run -/

/-- A wrong word was read. -/
def RunError.IsMismatch : RunError → Prop
  | .dataMismatch .. => True
  | .protocol _ | .timeout .. | .cycleBudget _ => False

namespace ShadowMemory

variable {m : ShadowMemory} {e : RunError} {observed : List Nat}

theorem eq_error_of_return {ε α : Type} {x : Except ε Unit} {a : α} {e : ε}
    (h : (do x; return a) = Except.error e) : x = .error e := by
  cases x with
  | error e' => cases h; rfl
  | ok _ => cases h

/-- A read that is not as expected is a mismatch. -/
theorem expect_eq_error {adr actual : Nat} (h : m.expect adr actual = .error e) : e.IsMismatch := by
  rw [expect] at h
  split at h <;> cases h
  trivial

theorem expectAll_eq_error {adrs : List Nat} (h : m.expectAll adrs observed = .error e) : e.IsMismatch := by
  induction adrs generalizing observed with
  | nil => cases h
  | cons adr adrs ih =>
      rw [expectAll] at h
      cases hfirst : m.expect adr (observed.headD 0) with
      | error e' =>
          rw [hfirst] at h
          cases h
          exact expect_eq_error hfirst
      | ok _ =>
          rw [hfirst] at h
          exact ih h

/-- The check of a transaction reports wrong words only. -/
theorem check_eq_error {t : Transaction} (h : m.check t observed = .error e) : e.IsMismatch := by
  cases t with
  | read adr => exact expect_eq_error (eq_error_of_return h)
  | write adr data sel => cases h
  | burstRead adr kind n => exact expectAll_eq_error (eq_error_of_return h)
  | burstWrite adr kind data => cases h

end ShadowMemory

namespace Simulator

variable {bound : Nat} {g : Geometry} {s : Simulator (MemoryStore Timing)}

/-- With a timeout of twice the bound and nine cycles more, or a longer one, no run ends in a timeout. -/
theorem ends_runFrom_patient (i : Initiator) (hlong : 9 + 2 * bound ≤ i.timeout) (h : Quiet bound i.geometry s)
    (shadow : ShadowMemory) (seen : List Nat) (transactions : List Transaction) :
    Ends (runFrom i shadow seen transactions) s (fun _ _ => True)
      fun e _ => ∀ addr cycles, e ≠ .timeout addr cycles := by
  induction transactions generalizing s shadow seen with
  | nil => exact ends_pure trivial
  | cons t transactions ih =>
      rw [runFrom]
      refine (i.ends_execute_quiet h t).bind (fun e s' hpatient addr cycles he => ?_) fun observed s' _ hs' => ?_
      · obtain ⟨⟨_, hbudget⟩, _⟩ := hpatient hlong
        cases he.symm.trans hbudget
      · cases hcheck : shadow.check t observed with
        | error e =>
            have hmismatch := ShadowMemory.check_eq_error hcheck
            exact ends_throw fun _ _ he => by rw [he] at hmismatch; exact hmismatch
        | ok shadow => exact ih hs' shadow _

/-! ## From a cold cache on -/

/-- A fresh simulator is quiet. -/
theorem quiet_ofContents {config : Config} (hg : Geometry.ofConfig config.cache config.backing = .ok g)
    (contents : List (Nat × Block × Nat)) :
    Quiet config.backing.maxLatency g (ofContents config g (.ofConfig config.backing) contents) where
  inStep := (rests_ofContents hg _ contents).inStep
  geometry_eq := rfl
  within := by
    have hlatency := MemoryStore.latency_preload (.empty config.backing (Timing.ofConfig config.backing)) contents
    exact hlatency ▸ Timing.within_ofConfig config.backing
  state_eq := rfl
  inactive := rfl

/-- **Acknowledgements come in time**, for every configuration and every content of the store.

After any transactions on a fresh simulator that all succeed, each with its own timeout, and for any next one:

* its first beat is acknowledged exactly on tick `ackTick`: on tick 2 when its block is there, on tick 7 and the
  latency of the refill when it replaces a clean line, and on tick 10 and the latencies of the write-back and
  the refill when it replaces a dirty one;
* every beat, when it comes to it, is acknowledged at the latest on the tick that this would be for it.

So when the timeouts allow for twice the longest latency and nine cycles more, no transaction ever times out,
whatever became of those before it: it succeeds, or the cycles of the run are used up. Neither does a checked
run of transactions time out. -/
theorem acks_in_time {config : Config} (hg : Geometry.ofConfig config.cache config.backing = .ok g)
    (contents : List (Nat × Block × Nat)) :
    let start := ofContents config g (Timing.ofConfig config.backing) contents
    let patience := 9 + 2 * config.backing.maxLatency
    (∀ (history : List (Nat × Transaction)) words s,
      (history.mapM fun job => (Initiator.mk g job.1).execute job.2).run start = .ok words s →
      ∀ timeout t,
        let i := Initiator.mk g timeout
        (∀ r, (i.requests t)[0]? = some r →
          ∃ victim, s.cache.line? (s.cache.target r).line = some victim ∧
            i.AcksOn s r (s.ackTick r victim)) ∧
        ∀ j r observed middle, (i.requests t)[j]? = some r →
          (((i.requests t).take j).mapM i.beat).run s = .ok observed middle →
          ∃ victim, middle.cache.line? (middle.cache.target r).line = some victim ∧
            ∃ n ≤ middle.ackTick r victim, i.AcksOn middle r n) ∧
      (∀ (history : List (Nat × Transaction)) timeout t e s,
        (∀ job ∈ history, patience ≤ job.1) → patience ≤ timeout →
        ((Initiator.mk g timeout).execute t).run (start.attempts g history) = .error e s →
        (∃ cycles, e = .cycleBudget cycles) ∧ s.maxCycles ≤ s.cycle) ∧
      (patience ≤ config.general.timeoutCycles.toNat → ∀ transactions addr cycles s,
        (runTransactions transactions).run start ≠ .error (.timeout addr cycles) s) := by
  intro start patience
  have hstart : Quiet config.backing.maxLatency g start := quiet_ofContents hg contents
  refine ⟨fun history words s hrun timeout t => ?_, fun history timeout t e s hlong htimeout hrun => ?_,
    fun hlong transactions addr cycles s hrun => ?_⟩
  · intro i
    have hquiet := quiet_history hstart history hrun
    have hactive {j : Nat} {r : Bus.Request} (hr : (i.requests t)[j]? = some r) : r.isActive = true :=
      i.isActive_requests t r (List.mem_of_getElem? hr)
    refine ⟨fun r hr => ?_, fun j r observed middle hr hmiddle => ?_⟩
    · obtain ⟨victim, hl⟩ := hquiet.inStep.valid.exists_line (s.cache.geometry.split_line_lt r.adr)
      obtain ⟨hacks, hmiss⟩ := undecided_of_inactive hquiet.inactive r
      exact ⟨victim, hl, i.acksOn hquiet.inStep
        (ackedOn_ackTick hquiet.inStep hquiet.state_eq (hactive hr) hacks hmiss hl)⟩
    · have hearlier : ∀ r ∈ (i.requests t).take j, r.isActive = true :=
        fun r hr => i.isActive_requests t r (List.mem_of_mem_take hr)
      have hends := i.ends_mapM_beat_serving hquiet.toServing hearlier
      rw [Ends, hmiddle] at hends
      obtain ⟨victim, hl, n, hn, hacked⟩ := exists_ackedOn hends.inStep hends.state_eq (hactive hr)
      exact ⟨victim, hl, n, hn, i.acksOn hends.inStep hacked⟩
  · have hends := ends_execute_attempts (.inl hstart) hlong htimeout t
    rw [Ends, hrun] at hends
    exact hends
  · have hends : Ends (runTransactions transactions) start (fun _ _ => True)
        fun e _ => ∀ addr cycles, e ≠ .timeout addr cycles :=
      ends_runFrom_patient ⟨g, start.timeoutCycles⟩ hlong hstart { geometry := g } [] transactions
    rw [Ends, hrun] at hends
    exact hends addr cycles rfl

/-- A write makes the only line dirty, and a read of another block has to wait for both latencies of four
cycles. -/
theorem acks_in_time_dirty_victim :
    ∃ words s, ([(20, .write 1 0xabcd 3)].mapM fun job => (Initiator.mk tiny job.1).execute job.2).run
        (ofContents tinyConfig tiny (Timing.ofConfig tinyConfig.backing) []) = .ok words s ∧
      (Initiator.mk tiny 20).AcksOn s (.read 4 3) 18 := by
  have htick : (match ([(20, .write 1 0xabcd 3)].mapM fun job =>
        (Initiator.mk tiny job.1).execute job.2).run
          (ofContents tinyConfig tiny (Timing.ofConfig tinyConfig.backing) []) with
      | .ok _ s => (s.cache.line? (s.cache.target (.read 4 3)).line).map (s.ackTick (.read 4 3))
      | .error .. => none) = some 18 := by
    decide +kernel
  cases hrun : ([(20, .write 1 0xabcd 3)].mapM fun job => (Initiator.mk tiny job.1).execute job.2).run
      (ofContents tinyConfig tiny (Timing.ofConfig tinyConfig.backing) []) with
  | ok words s =>
      rw [hrun] at htick
      obtain ⟨hfirst, _⟩ := (acks_in_time ofConfig_tinyConfig []).1 _ words s hrun 20 (.read 4)
      obtain ⟨victim, hl, hacks⟩ := hfirst (.read 4 3) rfl
      have heq : s.ackTick (.read 4 3) victim = 18 := by
        dsimp only at htick
        rw [hl] at htick
        exact Option.some.inj htick
      exact ⟨words, s, rfl, heq ▸ hacks⟩
  | error e s =>
      rw [hrun] at htick
      cases htick

end Simulator

end WriteBack
