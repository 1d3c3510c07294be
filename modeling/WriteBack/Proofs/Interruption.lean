import WriteBack.Proofs.Beats
import WriteBack.Proofs.Consistency

/-!
# WriteBack.Proofs.Interruption

Transactions that end early. A beat that is given up leaves the cache wherever it was, with the request still
registered, and the next transaction starts from there. Whatever that state is, a transaction that fails has
performed exactly the beats that were acknowledged, in order, and no part of the next one
(`failed_transaction_commits_prefix`).

Each computation is shown to end well in both cases: it returns and has committed all of its beats, or it fails
and has committed those before the one that failed (`ends_hold` up to `ends_execute`).
-/

namespace WriteBack

/-! ## Acknowledgements -/

/-- Every acknowledgement is counted. -/
theorem Cache.acks_countCheck (c : Cache) (bus : Bus.Request) :
    (c.countCheck bus).acks = c.counters.acks + (c.acks bus).toNat := by
  cases hacks : c.acks bus <;> cases hwe : bus.we <;> cases hretry : c.retrying <;>
    simp [countCheck, Counters.acks, hacks, hwe, hretry] <;> omega

/-- The counters count the acknowledgements on the bus. -/
theorem Cache.acks_next (c : Cache) (bus : Bus.Request) (link : Link.Response) :
    (c.next bus link).counters.acks = c.counters.acks + (c.busResponse bus).ack.toNat := by
  cases hs : c.state with
  | check =>
      have hack : (c.busResponse bus).ack = c.acks bus := by
        rw [Bool.eq_iff_iff, c.ack_busResponse bus]
        simp [hs]
      rw [next_check hs, hack]
      exact c.acks_countCheck bus
  | evict p =>
      rw [next_evict hs, busResponse, hs]
      rfl
  | refill p =>
      rw [next_refill hs, busResponse, hs]
      rfl

theorem Bus.Request.perform_toBeat (g : Geometry) (words : Nat → Nat) (r : Bus.Request) :
    r.toBeat.perform g words = Simulator.afterBeat g words r := by
  rw [toBeat, Simulator.afterBeat]
  split <;> rfl

namespace Simulator

variable {L : Type}

/-- A simulator of the given geometry that holds the given words and has acknowledged `n` beats. -/
structure Committed (g : Geometry) (words : Nat → Nat) (n : Nat) (s : Simulator (MemoryStore L)) : Prop
    extends Holds g words s where
  acks_eq : s.cache.counters.acks = n

variable {g : Geometry} {words : Nat → Nat} {n : Nat} {r : Bus.Request} {s : Simulator (MemoryStore L)}

/-- A sound simulator has committed what it holds. -/
theorem committed_self (h : s.Sound) (hg : s.cache.geometry = g) :
    Committed g s.image s.cache.counters.acks s :=
  ⟨⟨h, hg, rfl⟩, rfl⟩

variable [LatencyModel L]

/-- The simulator after `n` cycles with the same request on the bus. -/
def presenting (s : Simulator (MemoryStore L)) (r : Bus.Request) : Nat → Simulator (MemoryStore L)
  | 0 => s
  | n + 1 => (s.next r).presenting r n

@[simp] theorem cycle_presenting (s : Simulator (MemoryStore L)) (r : Bus.Request) (n : Nat) :
    (s.presenting r n).cycle = s.cycle + n := by
  induction n generalizing s with
  | zero => rfl
  | succ n ih =>
      rw [presenting, ih, cycle_next]
      omega

/-- A cycle commits the beat that it acknowledges. -/
theorem Committed.next (h : Committed g words n s) (r : Bus.Request) :
    Committed g (if (s.cache.busResponse r).ack = true then r.toBeat.perform g words else words)
      (n + (s.cache.busResponse r).ack.toNat) (s.next r) where
  sound := h.sound.next r
  geometry_eq := (Cache.geometry_next ..).trans h.geometry_eq
  image_eq := by
    rw [h.sound.image_next, h.geometry_eq, h.image_eq, r.perform_toBeat, afterBeat]
    cases (s.cache.busResponse r).ack <;> cases r.we <;> simp
  acks_eq := by rw [cache_next, Cache.acks_next, h.acks_eq]

/-- Idle cycles commit nothing, and fail at most by the cycle budget. -/
theorem ends_idle (h : Committed g words n s) (k : Nat) :
    Ends (idle k) s (fun _ s' => Committed g words n s')
      fun e s' => (∃ cycles, e = .cycleBudget cycles) ∧ Committed g words n s' := by
  induction k generalizing s with
  | zero => exact ends_pure h
  | succ k ih =>
      refine (ends_tick h.sound.watches .idle).bind (fun e s' ⟨he, hs'⟩ => ?_) fun _ s' _ ⟨_, hs'⟩ => ?_
      · exact ⟨⟨_, he⟩, hs' ▸ h⟩
      · have hidle : s.cache.acks .idle = false := rfl
        have hack : (s.cache.busResponse .idle).ack = false := by
          rw [← Bool.not_eq_true, Cache.ack_busResponse, hidle]
          simp
        have hnext := h.next .idle
        rw [hack] at hnext
        exact ih (hs' ▸ hnext)

end Simulator

namespace Initiator

open Simulator

variable {L : Type} [LatencyModel L] {g : Geometry} {words : Nat → Nat} {n : Nat}
variable {s : Simulator (MemoryStore L)} (i : Initiator)

/-- The initiator gives up on a request that it presents from `s` on: none of the cycles that the beat may
take brought an acknowledgement. -/
structure TimesOut (r : Bus.Request) (s : Simulator (MemoryStore L)) (e : RunError)
    (s' : Simulator (MemoryStore L)) : Prop where
  error_eq : e = .timeout r.adr i.timeout
  state_eq : s' = s.presenting r (i.timeout + 1)
  silent : ∀ k ≤ i.timeout, ((s.presenting r k).cache.busResponse r).ack = false

/-- A beat is committed when it is acknowledged, and not at all when it fails. -/
theorem ends_hold {r : Bus.Request} (h : Committed g words n s) (tries : Nat) :
    Ends (i.hold r tries) s (fun _ s' => Committed g (r.toBeat.perform g words) (n + 1) s') fun e s' =>
      Committed g words n s' ∧ ((∃ cycles, e = .cycleBudget cycles) ∨
        (e = .timeout r.adr i.timeout ∧ s' = s.presenting r tries ∧
          ∀ k < tries, ((s.presenting r k).cache.busResponse r).ack = false)) := by
  induction tries generalizing s with
  | zero => exact ends_throw ⟨h, .inr ⟨rfl, rfl, fun k hk => absurd hk (Nat.not_lt_zero k)⟩⟩
  | succ tries ih =>
      rw [hold]
      refine (ends_tick h.sound.watches r).bind (fun e s' ⟨he, hs'⟩ => ?_)
        fun response s' _ ⟨hresponse, hs'⟩ => ?_
      · exact ⟨hs' ▸ h, .inl ⟨_, he⟩⟩
      · have hnext := h.next r
        subst hresponse hs'
        cases hack : (s.cache.busResponse r).ack with
        | true =>
            rw [hack, if_pos rfl] at hnext
            exact ends_pure hnext
        | false =>
            rw [hack, if_neg (by decide)] at hnext
            refine (ih hnext).mono (fun _ _ => id) fun e s' ⟨hs', hreason⟩ => ⟨hs', ?_⟩
            refine hreason.imp_right fun ⟨he, hstate, hsilent⟩ => ⟨he, hstate, fun k hk => ?_⟩
            cases k with
            | zero => exact hack
            | succ k => exact hsilent k (Nat.lt_of_succ_lt_succ hk)

/-- Requests that are presented from `s` on fail within beat `j`: the cycles are used up, or the beats before
it succeed and it is given up. -/
def FailsAt (requests : List Bus.Request) (s : Simulator (MemoryStore L)) (j : Nat) (e : RunError)
    (s' : Simulator (MemoryStore L)) : Prop :=
  (∃ cycles, e = .cycleBudget cycles) ∨ ∃ r observed middle, requests[j]? = some r ∧
    ((requests.take j).mapM i.beat).run s = .ok observed middle ∧ i.TimesOut r middle e s'

/-- A beat that succeeds puts off the one that fails. -/
theorem FailsAt.cons {r : Bus.Request} {requests : List Bus.Request} {word j : Nat} {e : RunError}
    {s₁ s' : Simulator (MemoryStore L)} (hbeat : (i.beat r).run s = .ok word s₁)
    (h : i.FailsAt requests s₁ j e s') : i.FailsAt (r :: requests) s (j + 1) e s' := by
  refine h.imp_right ?_
  rintro ⟨r', observed, middle, hr', hrun, htimeout⟩
  refine ⟨r', word :: observed, middle, by simpa using hr', ?_, htimeout⟩
  rw [List.take_succ_cons, List.mapM_cons, EStateM.run_bind, hbeat]
  dsimp only
  rw [EStateM.run_bind, hrun]
  rfl

variable {i} in
/-- A beat fails by its timeout or by the cycle budget. -/
theorem FailsAt.limit {requests : List Bus.Request} {j : Nat} {e : RunError} {s' : Simulator (MemoryStore L)}
    (h : i.FailsAt requests s j e s') :
    (∃ addr, e = .timeout addr i.timeout) ∨ ∃ cycles, e = .cycleBudget cycles := by
  rcases h with hbudget | ⟨r, _, _, _, _, htimeout⟩
  · exact .inr hbudget
  · exact .inl ⟨r.adr, htimeout.error_eq⟩

variable {i} in
/-- On a timeout the beat was on the bus for as long as it may wait. -/
theorem FailsAt.timeout {t : Transaction} {j addr cycles : Nat} {s' : Simulator (MemoryStore L)}
    (h : i.FailsAt (i.requests t) s j (.timeout addr cycles) s') : ∃ r observed middle,
      (i.requests t)[j]? = some r ∧ (t.toBeats i.geometry)[j]? = some r.toBeat ∧ r.adr = addr ∧
      (((i.requests t).take j).mapM i.beat).run s = .ok observed middle ∧
      s' = middle.presenting r (i.timeout + 1) ∧ s'.cycle = middle.cycle + (i.timeout + 1) ∧
      ∀ k ≤ i.timeout, ((middle.presenting r k).cache.busResponse r).ack = false := by
  rcases h with ⟨_, hbudget⟩ | ⟨r, observed, middle, hr, hrun, herror, hstate, hsilent⟩
  · cases hbudget
  · have hbeat : (t.toBeats i.geometry)[j]? = some r.toBeat := by
      rw [← i.toBeat_requests t, List.getElem?_map, hr]
      rfl
    have hadr : r.adr = addr := by
      cases herror
      rfl
    have hcycle : s'.cycle = middle.cycle + (i.timeout + 1) := by
      rw [hstate, cycle_presenting]
    exact ⟨r, observed, middle, hr, hbeat, hadr, hrun, hstate, hcycle, hsilent⟩

/-- Requests fail within one of their beats: those before it are committed. -/
theorem ends_mapM_beat (h : Committed g words n s) (requests : List Bus.Request) :
    Ends (requests.mapM i.beat) s
      (fun _ s' => Committed g ((requests.map Bus.Request.toBeat).foldl (Beat.perform g) words)
        (n + requests.length) s')
      fun e s' => ∃ j < requests.length,
        Committed g (((requests.map Bus.Request.toBeat).take j).foldl (Beat.perform g) words) (n + j) s' ∧
          i.FailsAt requests s j e s' := by
  induction requests generalizing s words n with
  | nil => exact ends_pure h
  | cons r requests ih =>
      rw [List.mapM_cons]
      -- the first beat fails and nothing is committed, or it is committed and one of the others may fail
      refine (i.ends_hold h _).bind (fun e s' ⟨hs', hreason⟩ => ?_) fun word s₁ hbeat h₁ => ?_
      · refine ⟨0, by simp, by simpa using hs', hreason.imp_right fun ⟨he, hstate, hsilent⟩ => ?_⟩
        exact ⟨r, [], s, rfl, rfl, he, hstate, fun k hk => hsilent k (Nat.lt_succ_of_le hk)⟩
      · refine (ih h₁).bind (fun e s' ⟨j, hj, hs', hfails⟩ => ?_) fun observed s₂ _ h₂ => ends_pure ?_
        · have hcount : n + 1 + j = n + (j + 1) := by omega
          rw [hcount] at hs'
          exact ⟨j + 1, by simpa using hj, by simpa using hs', hfails.cons i hbeat⟩
        · have hcount : n + 1 + requests.length = n + (requests.length + 1) := by omega
          rw [hcount] at h₂
          exact h₂

/-- **A transaction** fails within one of its beats, or in the idle cycle after them. -/
theorem ends_execute (h : Committed i.geometry words n s) (t : Transaction) :
    Ends (i.execute t) s
      (fun _ s' => Committed i.geometry ((t.toBeats i.geometry).foldl (Beat.perform i.geometry) words)
        (n + t.beats) s')
      fun e s' => ∃ j ≤ t.beats,
        Committed i.geometry (((t.toBeats i.geometry).take j).foldl (Beat.perform i.geometry) words)
          (n + j) s' ∧ i.FailsAt (i.requests t) s j e s' := by
  have hbeats := i.ends_mapM_beat h (i.requests t)
  rw [i.toBeat_requests, i.length_requests] at hbeats
  rw [i.execute_eq]
  refine hbeats.bind (fun e s' ⟨j, hj, hs'⟩ => ⟨j, Nat.le_of_lt hj, hs'⟩) fun observed s₁ _ h₁ => ?_
  refine (ends_idle h₁ _).bind (fun e s' ⟨he, hs'⟩ => ?_) fun _ s₂ _ h₂ => ends_pure h₂
  refine ⟨t.beats, Nat.le_refl _, ?_, .inl he⟩
  rwa [List.take_of_length_le (by simp)]

end Initiator

/-! ## A history of transactions -/

namespace Simulator

variable {L : Type} [LatencyModel L] {g : Geometry} {s : Simulator (MemoryStore L)}

/-- A simulator after some transactions, each with its own timeout, whatever became of them. -/
def attempts (g : Geometry) (s : Simulator (MemoryStore L)) (history : List (Nat × Transaction)) :
    Simulator (MemoryStore L) :=
  history.foldl (fun s job => ((Initiator.mk g job.1).execute job.2).leave s) s

/-- No failure leaves a simulator that is not sound. -/
theorem sound_attempts (h : s.Sound) (hg : s.cache.geometry = g) (history : List (Nat × Transaction)) :
    (s.attempts g history).Sound ∧ (s.attempts g history).cache.geometry = g := by
  induction history generalizing s with
  | nil => exact ⟨h, hg⟩
  | cons job history ih =>
      have hends := (Initiator.mk g job.1).ends_execute (committed_self h hg) job.2
      obtain ⟨hsound, hgeometry⟩ := Ends.leave (I := fun s' => s'.Sound ∧ s'.cache.geometry = g)
        (hends.mono (fun _ _ hs' => ⟨hs'.sound, hs'.geometry_eq⟩)
          fun _ _ ⟨_, _, hs', _⟩ => ⟨hs'.sound, hs'.geometry_eq⟩)
      exact ih hsound hgeometry

/-- A transaction that returns after a history of any kind returns the words of the memory at that point. -/
theorem reads_image (h : s.Sound) (hg : s.cache.geometry = g) (history : List (Nat × Transaction))
    {timeout : Nat} {t : Transaction} {observed : List Nat} {s' : Simulator (MemoryStore L)}
    (hrun : ((Initiator.mk g timeout).execute t).run (s.attempts g history) = .ok observed s') :
    observed = (t.perform g (s.attempts g history).image).1 := by
  obtain ⟨hsound, hgeometry⟩ := sound_attempts h hg history
  have hreturns := (Initiator.mk g timeout).returns_execute ⟨hsound, hgeometry, rfl⟩ t
  rw [Returns, hrun] at hreturns
  exact hreturns.1

/-- **A transaction that fails commits the beats that were acknowledged**, for every configuration, every
latency model and every history of transactions on a cold cache with an empty store, however each of them
ended. The failure is a timeout or the end of the cycles. There is a number `j` such that

* `j` beats were acknowledged, and the memory is that from before with the first `j` beats performed; for a
  transaction that reads it is the one from before;
* on a timeout, the address is that of beat `j`, which was on the bus without an acknowledgement for all of
  the `timeout + 1` cycles after the first `j` beats.

Whatever is tried after that, a transaction that returns has read the words of the memory at that point. -/
theorem failed_transaction_commits_prefix {config : Config}
    (hg : Geometry.ofConfig config.cache config.backing = .ok g) (latency : L)
    (history : List (Nat × Transaction)) (timeout : Nat) (t : Transaction) {e : RunError}
    {s' : Simulator (MemoryStore L)}
    (h : ((Initiator.mk g timeout).execute t).run ((ofContents config g latency []).attempts g history) =
      .error e s') :
    let i := Initiator.mk g timeout
    let s := (ofContents config g latency []).attempts g history
    ((∃ addr, e = .timeout addr timeout) ∨ ∃ cycles, e = .cycleBudget cycles) ∧
      (∃ j ≤ t.beats,
        s'.cache.counters.acks = s.cache.counters.acks + j ∧
        s'.image = ((t.toBeats g).take j).foldl (Beat.perform g) s.image ∧
        (t.reads = true → s'.image = s.image) ∧
        ∀ addr cycles, e = .timeout addr cycles → ∃ r observed middle,
          (i.requests t)[j]? = some r ∧ (t.toBeats g)[j]? = some r.toBeat ∧ r.adr = addr ∧
          (((i.requests t).take j).mapM i.beat).run s = .ok observed middle ∧
          s' = middle.presenting r (timeout + 1) ∧ s'.cycle = middle.cycle + (timeout + 1) ∧
          ∀ k ≤ timeout, ((middle.presenting r k).cache.busResponse r).ack = false) ∧
      ∀ later timeout' t' observed s'',
        ((Initiator.mk g timeout').execute t').run (s'.attempts g later) = .ok observed s'' →
          observed = (t'.perform g (s'.attempts g later).image).1 := by
  intro i s
  have hcold : (ofContents config g latency []).cache.geometry = g := rfl
  have hempty : (ofContents config g latency []).Sound :=
    sound_ofContents hg latency [] fun _ _ => readBlock_ofContents_nil hg latency _
  obtain ⟨hsound, hgeometry⟩ := sound_attempts hempty hcold history
  have hends := i.ends_execute (committed_self hsound hgeometry) t
  rw [Ends, h] at hends
  obtain ⟨j, hj, hs', hfails⟩ := hends
  have hreads : t.reads = true → s'.image = s.image := by
    intro hr
    have hbeats : ∀ b ∈ (t.toBeats g).take j, b.we = false := by
      intro b hb
      rw [t.we_toBeats g b (List.mem_of_mem_take hb), hr]
      rfl
    rw [hs'.image_eq]
    exact Beat.foldl_perform_of_reads hbeats _
  refine ⟨hfails.limit, ⟨j, hj, hs'.acks_eq, hs'.image_eq, hreads, ?_⟩, ?_⟩
  · rintro addr cycles rfl
    exact hfails.timeout
  · intro later timeout' t' observed s'' hrun
    exact reads_image hs'.sound hs'.geometry_eq later hrun

/-- A read is given up while its block is fetched. The burst after it is acknowledged once; its second beat is
given up one cycle before the acknowledgement. -/
theorem failed_transaction_commits_prefix_tiny :
    ∃ s', ((Initiator.mk tiny 18).execute (.burstWrite 1 .linear [0xabcd, 0x1234])).run
        ((ofContents tinyConfig tiny (Timing.fixed 5) []).attempts tiny [(2, .read 4)]) =
          .error (.timeout 2 18) s' ∧ s'.image 1 = 0xabcd ∧ s'.image 2 = 0 := by
  have hend : (match ((Initiator.mk tiny 18).execute (.burstWrite 1 .linear [0xabcd, 0x1234])).run
      ((ofContents tinyConfig tiny (Timing.fixed 5) []).attempts tiny [(2, .read 4)]) with
      | .ok .. => none
      | .error e s' => some (e, s'.cache.counters.acks)) = some (.timeout 2 18, 1) := by
    decide +kernel
  cases hrun : ((Initiator.mk tiny 18).execute (.burstWrite 1 .linear [0xabcd, 0x1234])).run
      ((ofContents tinyConfig tiny (Timing.fixed 5) []).attempts tiny [(2, .read 4)]) with
  | ok observed s' =>
      rw [hrun] at hend
      cases hend
  | error e s' =>
      rw [hrun] at hend
      obtain ⟨rfl, hone⟩ := Prod.mk.inj (Option.some.inj hend)
      obtain ⟨_, ⟨j, _, hacks, himage, _⟩, _⟩ :=
        failed_transaction_commits_prefix ofConfig_tinyConfig (Timing.fixed 5) [(2, .read 4)] 18
          (.burstWrite 1 .linear [0xabcd, 0x1234]) hrun
      have hbefore : ((ofContents tinyConfig tiny (Timing.fixed 5) []).attempts tiny
          [(2, .read 4)]).cache.counters.acks = 0 := by
        decide +kernel
      obtain rfl : j = 1 := by omega
      refine ⟨s', rfl, ?_, ?_⟩
      · rw [himage]
        decide +kernel
      · rw [himage]
        decide +kernel

end Simulator

end WriteBack
