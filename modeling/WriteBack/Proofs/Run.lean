import WriteBack.Proofs.CacheInvariant
import WriteBack.Simulator

/-!
# WriteBack.Proofs.Run

Runs of a simulator, cycle by cycle. `run_tick` says what one cycle does: it returns what the cache drives
and leaves `next`, unless the cycles are used up or the monitor objects. A `Trace` is a run of any length
from a given simulator, with everything that was seen in each of its cycles; a reachable simulator is one
that a trace leads to. In every reachable simulator of a cold cache the cache is valid (`Trace.valid`).
-/

namespace WriteBack.Simulator

open Link

variable {S : Type} [BackingStore S]

/-! ## One cycle -/

/-- What goes across the link on the edge of the current cycle. -/
def transfers (s : Simulator S) : Transfers := .resolve s.cache.linkRequest s.link.drive

/-- What the monitor says of the current cycle, and the monitor after it. -/
def observed (s : Simulator S) : Option Violation × Monitor :=
  s.link.monitor.observe s.cache.linkRequest s.transfers

/-- The simulator after a counted cycle. -/
def next (s : Simulator S) (bus : Bus.Request) : Simulator S where
  cache := s.cache.next bus s.link.drive
  link := ⟨BackingStore.clock s.link.store s.transfers, s.observed.2⟩
  cycle := s.cycle + 1
  maxCycles := s.maxCycles
  timeoutCycles := s.timeoutCycles

@[simp] theorem cache_next (s : Simulator S) (bus : Bus.Request) :
    (s.next bus).cache = s.cache.next bus s.link.drive := rfl

@[simp] theorem store_next (s : Simulator S) (bus : Bus.Request) :
    (s.next bus).link.store = BackingStore.clock s.link.store s.transfers := rfl

@[simp] theorem monitor_next (s : Simulator S) (bus : Bus.Request) :
    (s.next bus).link.monitor = s.observed.2 := rfl

@[simp] theorem cycle_next (s : Simulator S) (bus : Bus.Request) :
    (s.next bus).cycle = s.cycle + 1 := rfl

@[simp] theorem maxCycles_next (s : Simulator S) (bus : Bus.Request) :
    (s.next bus).maxCycles = s.maxCycles := rfl

/-- The three ends of a cycle. -/
theorem run_tick (s : Simulator S) (bus : Bus.Request) :
    (tick bus).run s =
      if s.maxCycles ≤ s.cycle then .error (.cycleBudget s.maxCycles) s
      else match s.observed.1 with
        | none => .ok (s.cache.busResponse bus) (s.next bus)
        | some v => .error (.protocol v) { s.next bus with cycle := s.cycle } := by
  obtain ⟨cache, ⟨store, monitor⟩, cycle, maxCycles, timeoutCycles⟩ := s
  simp only [EStateM.run, tick, Cache.step_fst, Cache.step_snd, MonitoredStore.drive]
  split
  · rfl
  · simp only [MonitoredStore.commit, observed, transfers, next, MonitoredStore.drive]
    generalize monitor.observe _ _ = o
    obtain ⟨verdict, monitor'⟩ := o
    cases verdict <;> rfl

/-- A cycle that succeeds. -/
theorem run_tick_eq_ok {s s' : Simulator S} {bus : Bus.Request} {response : Bus.Response} :
    (tick bus).run s = .ok response s' ↔
      s.cycle < s.maxCycles ∧ s.observed.1 = none ∧ response = s.cache.busResponse bus ∧
        s' = s.next bus := by
  rw [run_tick]
  by_cases hb : s.maxCycles ≤ s.cycle
  · rw [if_pos hb]
    constructor
    · intro h; cases h
    · rintro ⟨hlt, _⟩; omega
  · rw [if_neg hb]
    cases s.observed.1 with
    | some v =>
        constructor
        · intro h; cases h
        · rintro ⟨_, h, _⟩; cases h
    | none =>
        constructor
        · intro h
          cases h
          exact ⟨by omega, rfl, rfl, rfl⟩
        · rintro ⟨_, _, rfl, rfl⟩
          rfl

/-! ## Runs -/

/-- What is seen in one cycle of a run. -/
structure Cycle (S : Type) where
  before : Simulator S
  bus : Bus.Request
  response : Bus.Response
  after : Simulator S

/-- What is seen in a cycle that succeeds. -/
def seen (s : Simulator S) (bus : Bus.Request) : Cycle S := ⟨s, bus, s.cache.busResponse bus, s.next bus⟩

/-- A run from a simulator: the cycles that succeeded, in order, and the simulator after them. -/
inductive Trace (start : Simulator S) : List (Cycle S) → Simulator S → Prop
  | nil : Trace start [] start
  | snoc {cycles : List (Cycle S)} {s s' : Simulator S} {bus : Bus.Request} {response : Bus.Response} :
      Trace start cycles s → (tick bus).run s = .ok response s' →
      Trace start (cycles ++ [⟨s, bus, response, s'⟩]) s'

/-- What holds at the start and is kept by every cycle holds wherever a run leads. -/
theorem Trace.invariant {start s : Simulator S} {cycles : List (Cycle S)} {P : Simulator S → Prop}
    (h : Trace start cycles s) (hstart : P start) (hnext : ∀ s bus, P s → P (s.next bus)) : P s := by
  induction h with
  | nil => exact hstart
  | snoc _ ht ih =>
      obtain ⟨_, _, _, rfl⟩ := run_tick_eq_ok.mp ht
      exact hnext _ _ ih

/-- A run without cycles leaves everything as it is. -/
theorem Trace.eq_of_nil {start s : Simulator S} {cycles : List (Cycle S)} (h : Trace start cycles s)
    (hnil : cycles = []) : start = s := by
  cases h with
  | nil => rfl
  | snoc _ _ => exact absurd hnil (List.append_ne_nil_of_right_ne_nil _ (List.cons_ne_nil _ _))

/-- One run after another is a run. -/
theorem Trace.append {start middle s : Simulator S} {xs ys : List (Cycle S)} (h : Trace start xs middle)
    (h' : Trace middle ys s) : Trace start (xs ++ ys) s := by
  induction h' with
  | nil => rwa [List.append_nil]
  | snoc _ hstep ih =>
      rw [← List.append_assoc]
      exact ih.snoc hstep

/-- Every cycle of a run counts. -/
theorem Trace.cycle_eq_add {start s : Simulator S} {cycles : List (Cycle S)} (h : Trace start cycles s) :
    s.cycle = start.cycle + cycles.length ∧ s.maxCycles = start.maxCycles := by
  induction h with
  | nil => exact ⟨rfl, rfl⟩
  | snoc _ hstep ih =>
      obtain ⟨_, _, _, rfl⟩ := run_tick_eq_ok.mp hstep
      rw [cycle_next, maxCycles_next, List.length_append, ih.1]
      exact ⟨rfl, ih.2⟩

/-- A run can be cut anywhere. -/
theorem Trace.of_append {start s : Simulator S} {xs ys : List (Cycle S)} (h : Trace start (xs ++ ys) s) :
    ∃ middle, Trace start xs middle ∧ Trace middle ys s := by
  generalize hzs : xs ++ ys = zs at h
  induction h generalizing ys with
  | nil =>
      obtain ⟨rfl, rfl⟩ := List.append_eq_nil_iff.mp hzs
      exact ⟨start, .nil, .nil⟩
  | @snoc cycles s s' bus response ht hstep ih =>
      rcases List.eq_nil_or_concat ys with rfl | ⟨ys', c, rfl⟩
      · rw [List.append_nil] at hzs
        subst hzs
        exact ⟨s', ht.snoc hstep, .nil⟩
      · rw [List.concat_eq_append, ← List.append_assoc] at hzs
        obtain ⟨hcycles, hc⟩ := List.append_inj' hzs rfl
        obtain ⟨middle, hxs, hys⟩ := ih hcycles
        rw [List.concat_eq_append, List.singleton_inj.mp hc]
        exact ⟨middle, hxs, hys.snoc hstep⟩

/-- The first cycle of a run and the rest of it. -/
theorem Trace.of_cons {start s : Simulator S} {c : Cycle S} {cycles : List (Cycle S)}
    (h : Trace start (c :: cycles) s) :
    c.before = start ∧ (tick c.bus).run start = .ok c.response c.after ∧ Trace c.after cycles s := by
  generalize hzs : c :: cycles = zs at h
  induction h generalizing cycles with
  | nil => cases hzs
  | @snoc zs s s' bus response ht hstep ih =>
      cases zs with
      | nil =>
          obtain ⟨rfl, rfl⟩ := List.cons.inj hzs
          cases ht.eq_of_nil rfl
          exact ⟨rfl, hstep, .nil⟩
      | cons z zs =>
          obtain ⟨rfl, rfl⟩ := List.cons.inj hzs
          obtain ⟨hbefore, hfirst, hrest⟩ := ih rfl
          exact ⟨hbefore, hfirst, hrest.snoc hstep⟩

/-- In the middle of a run: the run up to a cycle, the cycle, and the run after it. -/
theorem Trace.of_mem {start s : Simulator S} {earlier later : List (Cycle S)} {c : Cycle S}
    (h : Trace start (earlier ++ c :: later) s) :
    Trace start earlier c.before ∧ (tick c.bus).run c.before = .ok c.response c.after ∧
      Trace c.after later s := by
  obtain ⟨middle, hearlier, hrest⟩ := h.of_append
  obtain ⟨rfl, hstep, hlater⟩ := hrest.of_cons
  exact ⟨hearlier, hstep, hlater⟩

/-- Wherever a run leads, the geometry is the one it started with. -/
theorem Trace.geometry_eq {start s : Simulator S} {cycles : List (Cycle S)} (h : Trace start cycles s) :
    s.cache.geometry = start.cache.geometry :=
  h.invariant (P := fun s => s.cache.geometry = start.cache.geometry) rfl
    fun _ _ hg => (Cache.geometry_next ..).trans hg

/-! ## Runs from a cold cache -/

section Cold

variable {g : Geometry} {store : S} {general : Config.General} {cycles : List (Cycle S)} {s : Simulator S}

/-- A run keeps the geometry of the cold cache that it starts from. -/
theorem Trace.geometry_eq_cold (h : Trace (ofStore (Cache.ofGeometry g) store general) cycles s) :
    s.cache.geometry = g := h.geometry_eq

/-- Wherever a run leads, the cache is valid. -/
theorem Trace.valid (h : Trace (ofStore (Cache.ofGeometry g) store general) cycles s) : s.cache.Valid :=
  h.invariant (P := fun s => s.cache.Valid) (Cache.valid_ofGeometry g) fun _ _ hv => hv.next _ _

end Cold

end WriteBack.Simulator
