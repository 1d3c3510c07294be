import WriteBack.Link.MonitoredStore
import WriteBack.Proofs.Operations

/-!
# WriteBack.Proofs.Violations

What a broken rule leaves behind. The monitor rejects a cycle in one of two ways (`Monitor.Rejects`): for what is
offered in it, before its edge is captured, or for what has gone across, with its edge. Neither adds to the log. After
the first kind the operation in progress is as it was. After the second kind the monitor holds beats that break a rule
(`Monitor.Spoiled`), and it never gives them up: a filled slot keeps its contents as long as nothing bad is offered
(`Monitor.capture_keeps`), and no operation is retired. So every later cycle is rejected as well
(`MonitoredStore.after_of_spoiled`), for any traffic. The store is clocked all the same
(`MonitoredStore.violations_contained`).
-/

namespace WriteBack.Link

/-- The rule is one about offers, whatever goes across. -/
def Breach.ofOffer : Breach → Bool
  | .overlappingCommand | .duplicateWrite | .duplicateRead => true
  | .mismatchedBeat _ | .mixedOperation => false

namespace Monitor

variable {m m' : Monitor} {request : Request} {t : Transfers} {breach : Breach}

/-! ## One rejected cycle -/

/-- What a rejected cycle makes of a monitor. -/
inductive Rejects (m : Monitor) (request : Request) (t : Transfers) : Breach → Monitor → Prop
  /-- After a bad offer the edge is not captured. -/
  | offer {breach : Breach} : m.offerBreach request = some breach → Rejects m request t breach m.advance
  /-- The edge is captured, and what has gone across breaks a rule. -/
  | beat {breach : Breach} : m.offerBreach request = none → (m.capture t).beatBreach = some breach →
      Rejects m request t breach (m.capture t).advance

/-- A violation carries the number of the cycle, and the cycle is rejected for its rule. -/
theorem rejects_of_observe {v : Violation} (h : m.observe request t = (some v, m')) :
    v.cycle = m.cycle ∧ m.Rejects request t v.breach m' := by
  rw [observe] at h
  cases hoffer : m.offerBreach request with
  | some breach =>
      simp only [hoffer, Prod.mk.injEq, Option.some.injEq] at h
      obtain ⟨rfl, rfl⟩ := h
      exact ⟨rfl, .offer hoffer⟩
  | none =>
      cases hbeat : (m.capture t).beatBreach with
      | some breach =>
          simp only [hoffer, hbeat, Prod.mk.injEq, Option.some.injEq] at h
          obtain ⟨rfl, rfl⟩ := h
          exact ⟨rfl, .beat hoffer hbeat⟩
      | none => simp [hoffer, hbeat] at h

/-- A rejected cycle files nothing. -/
theorem Rejects.log_eq (h : m.Rejects request t breach m') : m'.log = m.log := by
  cases h <;> rfl

theorem ofOffer_of_offerBreach (h : m.offerBreach request = some breach) : breach.ofOffer = true := by
  grind [offerBreach, Breach.ofOffer]

theorem ofOffer_of_beatBreach (h : m.beatBreach = some breach) : breach.ofOffer = false := by
  grind [beatBreach, Breach.ofOffer]

/-- After a bad offer the operation in progress is as it was. -/
theorem Rejects.slots_eq (h : m.Rejects request t breach m') (hoffer : breach.ofOffer = true) :
    m'.command = m.command ∧ m'.write = m.write ∧ m'.read = m.read := by
  cases h with
  | offer _ => exact ⟨rfl, rfl, rfl⟩
  | beat _ hbeat => simp [ofOffer_of_beatBreach hbeat] at hoffer

/-! ## What has gone across stays -/

/-- What has gone across breaks a rule. -/
def Spoiled (m : Monitor) : Prop := m.beatBreach.isSome = true

theorem Rejects.spoiled (h : m.Rejects request t breach m') (hbeat : breach.ofOffer = false) : m'.Spoiled := by
  cases h with
  | offer hoffer => simp [ofOffer_of_offerBreach hoffer] at hbeat
  | beat _ h => exact Option.isSome_of_eq_some h

/-- A read and a write beat spoil an operation, and so does a beat against its command. -/
theorem spoiled_iff (m : Monitor) :
    m.Spoiled ↔ (m.read.isSome = true ∧ m.write.isSome = true) ∨
      ∃ c, m.command = some c ∧ if c.we then m.read.isSome = true else m.write.isSome = true := by
  rw [Spoiled, beatBreach]
  cases m.command with
  | none => grind
  | some c => cases hwe : c.we <;> grind

/-- Without a bad offer, a slot that is filled keeps what it holds. -/
theorem capture_keeps (hoffer : m.offerBreach request = none) (response : Response) :
    (m.command.isSome = true → (m.capture (.resolve request response)).command = m.command) ∧
      (m.write.isSome = true → (m.capture (.resolve request response)).write = m.write) ∧
      (m.read.isSome = true → (m.capture (.resolve request response)).read = m.read) := by
  obtain ⟨hcommand, hwrite, hread⟩ := (m.offerBreach_eq_none_iff request).mp hoffer
  refine ⟨fun h => ?_, fun h => ?_, fun h => ?_⟩
  · have hnone : request.command = none := Option.not_isSome_iff_eq_none.mp fun hnow => hcommand hnow h
    simp [capture, Transfers.resolve, hnone]
  · have hnone : request.write = none := Option.not_isSome_iff_eq_none.mp fun hnow => hwrite hnow h
    simp [capture, Transfers.resolve, hnone]
  · have hnot : request.readReady = false := Bool.eq_false_iff.mpr fun hnow => hread hnow h
    simp [capture, Transfers.resolve, hnot]

/-- A spoiled operation stays spoiled, whatever goes across. -/
theorem Spoiled.capture (h : m.Spoiled) (hoffer : m.offerBreach request = none) (response : Response) :
    (m.capture (.resolve request response)).Spoiled := by
  obtain ⟨hcommand, hwrite, hread⟩ := capture_keeps hoffer response
  rw [spoiled_iff] at h ⊢
  grind

/-- While an operation is spoiled, every cycle is rejected and leaves it spoiled. -/
theorem Spoiled.observe (h : m.Spoiled) (request : Request) (response : Response) :
    ∃ v m', m.observe request (.resolve request response) = (some v, m') ∧ m'.Spoiled ∧ m'.log = m.log := by
  rw [Monitor.observe]
  cases hoffer : m.offerBreach request with
  | some breach => exact ⟨_, _, rfl, h, rfl⟩
  | none =>
      have hspoiled := h.capture hoffer response
      obtain ⟨breach, hbreach⟩ := Option.isSome_iff_exists.mp hspoiled
      dsimp only
      rw [hbreach]
      exact ⟨_, _, rfl, hspoiled, rfl⟩

end Monitor

/-! ## Any cycles -/

namespace MonitoredStore

variable {S : Type} [BackingStore S]

/-- The link after some cycles, each with its request and its response. -/
def after (p : MonitoredStore S) (signals : List (Request × Response)) : MonitoredStore S :=
  signals.foldl (fun p s => (p.commit s.1 s.2).2) p

/-- The store is clocked once for every cycle, with what goes across in it. -/
theorem store_after (p : MonitoredStore S) (signals : List (Request × Response)) :
    (p.after signals).store =
      (signals.map fun s => Transfers.resolve s.1 s.2).foldl BackingStore.clock p.store := by
  induction signals generalizing p with
  | nil => rfl
  | cons s signals ih =>
      rw [after, List.foldl_cons, ← after, ih]
      simp

theorem cycle_after (p : MonitoredStore S) (signals : List (Request × Response)) :
    (p.after signals).monitor.cycle = p.monitor.cycle + signals.length := by
  induction signals generalizing p with
  | nil => rfl
  | cons s signals ih =>
      rw [after, List.foldl_cons, ← after, ih, monitor_commit, Monitor.cycle_observe, List.length_cons]
      omega

/-- A cycle of a spoiled operation. -/
theorem commit_of_spoiled {p : MonitoredStore S} (h : p.monitor.Spoiled) (request : Request) (response : Response) :
    (∃ v, (p.commit request response).1 = .error v) ∧ (p.commit request response).2.monitor.Spoiled ∧
      (p.commit request response).2.monitor.log = p.monitor.log := by
  obtain ⟨v, m', hobserve, hkept⟩ := h.observe request response
  rw [commit_eq, hobserve]
  exact ⟨⟨v, rfl⟩, hkept⟩

/-- A spoiled operation is never filed, and it stays spoiled. -/
theorem after_of_spoiled {p : MonitoredStore S} (h : p.monitor.Spoiled) (signals : List (Request × Response)) :
    (p.after signals).monitor.Spoiled ∧ (p.after signals).monitor.log = p.monitor.log := by
  induction signals generalizing p with
  | nil => exact ⟨h, rfl⟩
  | cons s signals ih =>
      obtain ⟨-, hspoiled, hlog⟩ := commit_of_spoiled h s.1 s.2
      obtain ⟨hlater, hlogs⟩ := ih hspoiled
      exact ⟨hlater, hlogs.trans hlog⟩

/-- An answer that names a broken rule comes from a cycle that the monitor rejects. -/
theorem rejects_of_commit {p : MonitoredStore S} {request : Request} {response : Response} {v : Violation}
    (h : (p.commit request response).1 = .error v) :
    v.cycle = p.monitor.cycle ∧
      p.monitor.Rejects request (.resolve request response) v.breach (p.commit request response).2.monitor := by
  rw [monitor_commit]
  rw [commit_eq] at h
  cases hverdict : (p.monitor.observe request (.resolve request response)).1 with
  | none => simp [hverdict] at h
  | some v' =>
      simp only [hverdict, Except.error.injEq] at h
      subst h
      exact Monitor.rejects_of_observe (Prod.ext hverdict rfl)

/-- An answer that names nothing broken is what goes across. -/
theorem eq_resolve_of_commit {p : MonitoredStore S} {request : Request} {response : Response} {t : Transfers}
    (h : (p.commit request response).1 = .ok t) : t = .resolve request response := by
  rw [commit_eq] at h
  dsimp only at h
  split at h <;> cases h
  rfl

/-- **Violations are contained**, for every store and every sequence of signals on the link. In whatever cycle, with
whatever traffic before it,

* the store has been clocked once for each cycle, with what went across in it, whether or not the cycle was rejected,
  and a cycle that is not rejected returns just that;
* a violation carries the number of the cycles before it, and the log stays as it is;
* a bad offer leaves the command, the write beat and the read beat of the operation in progress as they are;
* after a beat that breaks a rule, every later cycle returns a violation and the log never changes. -/
theorem violations_contained (store : S) (earlier : List (Request × Response)) (request : Request)
    (response : Response) :
    let p := after ⟨store, {}⟩ earlier
    let answer := (p.commit request response).1
    let p' := (p.commit request response).2
    p'.store =
        ((earlier ++ [(request, response)]).map fun s => Transfers.resolve s.1 s.2).foldl BackingStore.clock store ∧
      (∀ t, answer = .ok t → t = .resolve request response) ∧
      ∀ v, answer = .error v →
        v.cycle = earlier.length ∧ p'.monitor.log = p.monitor.log ∧
          (v.breach.ofOffer = true →
            p'.monitor.command = p.monitor.command ∧ p'.monitor.write = p.monitor.write ∧
              p'.monitor.read = p.monitor.read) ∧
          (v.breach.ofOffer = false → ∀ later,
            (p'.after later).monitor.log = p.monitor.log ∧
              ∀ request response, ∃ v, ((p'.after later).commit request response).1 = .error v) := by
  intro p answer p'
  refine ⟨?_, fun t => eq_resolve_of_commit, fun v hv => ?_⟩
  · simp [p', p, store_after]
  · obtain ⟨hcycle, hrejects⟩ := rejects_of_commit hv
    refine ⟨?_, hrejects.log_eq, hrejects.slots_eq, fun hbeat later => ?_⟩
    · rw [hcycle, cycle_after]
      exact Nat.zero_add _
    · obtain ⟨hlater, hlog⟩ := after_of_spoiled (hrejects.spoiled hbeat) later
      exact ⟨hlog.trans hrejects.log_eq, fun request response => (commit_of_spoiled hlater request response).1⟩

/-- A store that answers nothing and writes down what it is clocked with. -/
structure Recorder where
  edges : List Transfers := []

instance : BackingStore Recorder where
  respond _ := {}
  clock r t := ⟨r.edges ++ [t]⟩

/-- A read beat under a command that writes. The write beat that comes after it does not mend the operation, and the
store is clocked with the wrong beat all the same. -/
theorem violations_contained_wrongBeat :
    let command : Command := ⟨3, true, false⟩
    let p := after ⟨Recorder.mk [], {}⟩ [({ command := some command }, { commandReady := true })]
    let (answer, p') := p.commit { readReady := true } { read := some [7] }
    let q := p'.after [({ write := some ⟨[8], 1⟩ }, { writeReady := true })]
    answer = .error ⟨1, .mismatchedBeat true⟩ ∧
      p'.store.edges = [{ command := some command }, { read := some [7] }] ∧
      q.monitor.log = #[] ∧ ∃ v, (q.commit {} {}).1 = .error v := by
  obtain ⟨hstore, -, hviolation⟩ := violations_contained (Recorder.mk [])
    [({ command := some ⟨3, true, false⟩ }, { commandReady := true })] { readReady := true } { read := some [7] }
  obtain ⟨hlog, hrejected⟩ := (hviolation _ rfl).2.2.2 rfl [({ write := some ⟨[8], 1⟩ }, { writeReady := true })]
  exact ⟨rfl, congrArg Recorder.edges hstore, hlog, hrejected {} {}⟩

end MonitoredStore

end WriteBack.Link
