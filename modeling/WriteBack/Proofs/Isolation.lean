import Mathlib.Data.List.Forall2
import WriteBack.Proofs.Offers

/-!
# WriteBack.Proofs.Isolation

What a cycle of the cache looks at. It listens to one side at a time: to the bus while it serves requests
(`step_of_serving`), and to the store while it is stalled (`step_of_stalled`). What the other side drives meanwhile
reaches neither the outputs nor any register, memory or counter, so two runs that hear the same hear it in the same
states and never come apart (`sides_isolated`). The outputs of a cycle do not depend on the answer of the store in any
state, so a store may answer within the cycle, from the outputs, and the signals still settle in exactly one way.
-/

namespace WriteBack.Cache

open Link

variable {c : Cache}

/-- A cycle that serves requests is the same for every answer of the store. -/
theorem step_of_serving (h : c.state.isStalled = false) (bus : Bus.Request) (link link' : Response) :
    c.step bus link = c.step bus link' := by
  cases hs : c.state with
  | check => simp only [step, next, hs]
  | evict p => rw [hs] at h; cases h
  | refill p => rw [hs] at h; cases h

/-- A stalled cycle is the same for every request on the bus. -/
theorem step_of_stalled (h : c.state.isStalled = true) (bus bus' : Bus.Request) (link : Response) :
    c.step bus link = c.step bus' link := by
  cases hs : c.state with
  | check => rw [hs] at h; cases h
  | evict p => simp only [step, next, busResponse, hs]
  | refill p => simp only [step, next, busResponse, hs]

/-- A store that answers within the cycle, from what the cache drives, settles in exactly one way. -/
theorem existsUnique_settled (c : Cache) (bus : Bus.Request) (answer : Outputs → Response) :
    ∃! signals : Outputs × Response, signals.1 = (c.step bus signals.2).1 ∧ signals.2 = answer signals.1 := by
  -- the outputs do not depend on the answer, so any answer computes them
  refine ⟨((c.step bus {}).1, answer (c.step bus {}).1), ⟨rfl, rfl⟩, ?_⟩
  rintro ⟨outputs, link⟩ ⟨houtputs, hlink⟩
  obtain rfl : outputs = (c.step bus {}).1 := houtputs
  exact congrArg _ hlink

/-! ## Two runs -/

/-- Two cycles hear the same, each from the side that its state listens to. -/
structure Cycle.HeardAlike (k k' : Cycle) : Prop where
  bus : k.before.state.isStalled = false → k'.before.state.isStalled = false → k.bus = k'.bus
  link : k.before.state.isStalled = true → k'.before.state.isStalled = true → k.link = k'.link

theorem Cycle.HeardAlike.of_serving {k k' : Cycle} (hs : k.before.state.isStalled = false) (h : k.bus = k'.bus) :
    k.HeardAlike k' :=
  ⟨fun _ _ => h, fun hstalled => absurd (hs.symm.trans hstalled) Bool.false_ne_true⟩

theorem Cycle.HeardAlike.of_stalled {k k' : Cycle} (hs : k.before.state.isStalled = true) (h : k.link = k'.link) :
    k.HeardAlike k' :=
  ⟨fun hserving => absurd (hserving.symm.trans hs) Bool.false_ne_true, fun _ _ => h⟩

/-- Two cycles cannot be told apart, neither by what the cache drives in them nor by the cache before and after them,
which is its state, its registers, its lines and its counters. -/
structure Cycle.ShownAlike (k k' : Cycle) : Prop where
  before : k.before = k'.before
  outputs : (k.before.step k.bus k.link).1 = (k'.before.step k'.bus k'.link).1
  after : k.after = k'.after

/-- One cycle of the same cache. -/
theorem step_of_heardAlike {bus bus' : Bus.Request} {link link' : Response}
    (h : Cycle.HeardAlike ⟨c, bus, link⟩ ⟨c, bus', link'⟩) : c.step bus link = c.step bus' link' := by
  cases hs : c.state.isStalled with
  | false =>
      obtain rfl : bus = bus' := h.bus hs hs
      exact step_of_serving hs ..
  | true =>
      obtain rfl : link = link' := h.link hs hs
      exact step_of_stalled hs ..

/-- Two runs of a cache that hear the same cannot be told apart in any cycle. -/
theorem shownAlike_run {inputs inputs' : List (Bus.Request × Response)}
    (h : List.Forall₂ Cycle.HeardAlike (c.run inputs) (c.run inputs')) :
    List.Forall₂ Cycle.ShownAlike (c.run inputs) (c.run inputs') := by
  induction inputs generalizing c inputs' with
  | nil =>
      cases inputs' with
      | nil => exact .nil
      | cons input inputs' => cases h
  | cons input inputs ih =>
      cases inputs' with
      | nil => cases h
      | cons input' inputs' =>
          obtain ⟨hfirst, hrest⟩ := List.forall₂_cons.mp h
          have hstep : c.step input.1 input.2 = c.step input'.1 input'.2 := step_of_heardAlike hfirst
          have hnext : c.next input.1 input.2 = c.next input'.1 input'.2 := congrArg Prod.snd hstep
          -- both runs go on with the same cache, so they go on listening to the same side
          rw [← hnext] at hrest
          have hshown := ih hrest
          rw [run, run, ← hnext]
          exact .cons ⟨rfl, congrArg Prod.fst hstep, hnext⟩ hshown

/-- **Neither side of the cache leaks into the other**, for every cache in every state, so for every cold cache too.

* Two runs whose cycles hear the same requests on the bus wherever requests are served, and the same answers of the
  store wherever the cache is stalled, show the same outputs, states, lines and counters in every cycle, whatever the
  other side drives in each of them.
* What the cache offers to the store follows from its registers alone, and a store that answers within the cycle
  settles with it in exactly one way. -/
theorem sides_isolated (c : Cache) :
    (∀ inputs inputs' : List (Bus.Request × Response),
      List.Forall₂ Cycle.HeardAlike (c.run inputs) (c.run inputs') →
        List.Forall₂ Cycle.ShownAlike (c.run inputs) (c.run inputs')) ∧
    (∀ bus bus' link link', (c.step bus link).1.link = (c.step bus' link').1.link) ∧
    ∀ bus (answer : Outputs → Response),
      ∃! signals : Outputs × Response, signals.1 = (c.step bus signals.2).1 ∧ signals.2 = answer signals.1 :=
  ⟨fun _ _ => shownAlike_run, fun _ _ _ _ => rfl, c.existsUnique_settled⟩

/-- A miss whose read beat comes before its command is taken. The store of one run offers beats while requests are
served, and the bus of the other turns to a write while the cache is stalled. -/
theorem sides_isolated_miss :
    let quiet : List (Bus.Request × Response) := [(.read 0 3, {}), (.read 0 3, { read := some [9] }),
      (.idle, { read := some [1, 2, 3, 4] }), (.idle, { commandReady := true })]
    let noisy : List (Bus.Request × Response) := [(.read 0 3, { commandReady := true }), (.read 0 3, {}),
      (.write 5 0xabcd 3, { read := some [1, 2, 3, 4] }), (.read 7 1, { commandReady := true })]
    List.Forall₂ Cycle.HeardAlike ((ofGeometry Simulator.tiny).run quiet) ((ofGeometry Simulator.tiny).run noisy) ∧
      List.Forall₂ Cycle.ShownAlike
        ((ofGeometry Simulator.tiny).run quiet) ((ofGeometry Simulator.tiny).run noisy) := by
  intro quiet noisy
  have hheard : List.Forall₂ Cycle.HeardAlike ((ofGeometry Simulator.tiny).run quiet)
      ((ofGeometry Simulator.tiny).run noisy) :=
    .cons (.of_serving rfl rfl) (.cons (.of_serving rfl rfl)
      (.cons (.of_stalled rfl rfl) (.cons (.of_stalled rfl rfl) .nil)))
  exact ⟨hheard, (sides_isolated (ofGeometry Simulator.tiny)).1 quiet noisy hheard⟩

end WriteBack.Cache
