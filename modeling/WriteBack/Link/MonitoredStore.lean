import WriteBack.Link.Monitor

/-!
# WriteBack.Link.MonitoredStore

A backing store with a monitor on its link. Nothing is buffered or reordered: a cycle takes both halves of
the link as they are, resolves the channels, lets the monitor judge and clocks the store.
-/

namespace WriteBack.Link

/-- A store and the monitor of its link. -/
structure MonitoredStore (S : Type) where
  store : S
  monitor : Monitor := {}

namespace MonitoredStore

variable {S : Type} [BackingStore S]

/-- What the store drives in the current cycle. -/
def drive (p : MonitoredStore S) : Response := BackingStore.respond p.store

/-- One cycle: the transfers, or the rule that the request broke. The store is clocked either way. -/
def commit (p : MonitoredStore S) (request : Request) (response : Response) :
    Except Violation Transfers × MonitoredStore S :=
  let t := Transfers.resolve request response
  match p with
  | ⟨store, monitor⟩ =>
    let (verdict, monitor) := monitor.observe request t
    let next := ⟨BackingStore.clock store t, monitor⟩
    match verdict with
    | some v => (.error v, next)
    | none => (.ok t, next)

/-- The monitor decides what a cycle returns; the store does not hear of it. -/
theorem commit_eq (p : MonitoredStore S) (request : Request) (response : Response) :
    p.commit request response =
      (match (p.monitor.observe request (.resolve request response)).1 with
        | some v => .error v
        | none => .ok (.resolve request response),
      { store := BackingStore.clock p.store (.resolve request response)
        monitor := (p.monitor.observe request (.resolve request response)).2 }) := by
  unfold commit
  dsimp only
  split <;> rfl

/-- The store is clocked with what goes across, whatever the monitor says. -/
@[simp] theorem store_commit (p : MonitoredStore S) (request : Request) (response : Response) :
    (p.commit request response).2.store =
      BackingStore.clock p.store (Transfers.resolve request response) := by
  rw [commit_eq]

/-- The monitor observes what goes across. -/
@[simp] theorem monitor_commit (p : MonitoredStore S) (request : Request) (response : Response) :
    (p.commit request response).2.monitor =
      (p.monitor.observe request (Transfers.resolve request response)).2 := by
  rw [commit_eq]

end MonitoredStore

end WriteBack.Link
