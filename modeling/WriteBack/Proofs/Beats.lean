import WriteBack.Initiator
import WriteBack.Proofs.FlatMemory

/-!
# WriteBack.Proofs.Beats

The beats of a transaction. A transaction is a list of reads and writes of single words, and the initiator
presents one request for each of them: `execute_eq` takes every transaction to the same shape, the requests
one after the other and then a cycle of an idle bus. `toBeat_requests` says which beats the requests stand
for.
-/

namespace WriteBack

/-- One beat of traffic: what its request says, apart from the cycle type. -/
inductive Beat where
  | read (adr : Nat)
  | write (adr word sel : Nat)
deriving DecidableEq, Repr

namespace Beat

def adr : Beat → Nat
  | .read adr | .write adr _ _ => adr

@[simp] theorem adr_read (adr : Nat) : (read adr).adr = adr := rfl

/-- The beat writes. -/
def we : Beat → Bool
  | .read _ => false
  | .write .. => true

/-- A memory of words after a beat. -/
def perform (g : Geometry) (words : Nat → Nat) : Beat → Nat → Nat
  | .read _ => words
  | .write adr word sel => g.update words adr sel word

/-- Reads leave a memory alone. -/
theorem foldl_perform_of_reads {g : Geometry} {beats : List Beat} (h : ∀ b ∈ beats, b.we = false)
    (words : Nat → Nat) : beats.foldl (perform g) words = words := by
  induction beats with
  | nil => rfl
  | cons b beats ih =>
      obtain ⟨hb, hbeats⟩ := List.forall_mem_cons.mp h
      rw [List.foldl_cons]
      cases b with
      | read adr => exact ih hbeats
      | write adr word sel => cases hb

end Beat

namespace Bus.Request

/-- The beat that a request presents. -/
def toBeat (r : Bus.Request) : Beat := if r.we then .write r.adr r.datW r.sel else .read r.adr

@[simp] theorem adr_toBeat (r : Bus.Request) : r.toBeat.adr = r.adr := by
  unfold toBeat
  split <;> rfl

@[simp] theorem we_toBeat (r : Bus.Request) : r.toBeat.we = r.we := by
  unfold toBeat
  cases r.we <;> rfl

end Bus.Request

namespace Transaction

/-- The transaction reads. -/
def reads : Transaction → Bool
  | .read _ | .burstRead .. => true
  | .write .. | .burstWrite .. => false

/-- The beats of a transaction, in order. Addresses and words are cut to the widths of the bus. -/
def toBeats (g : Geometry) : Transaction → List Beat
  | .read adr => [.read (g.layout.clip adr)]
  | .write adr data sel => [.write (g.layout.clip adr) (data % 2 ^ g.dataWidth) sel]
  | .burstRead adr kind n => (kind.addresses g.layout.addrMask adr n).map .read
  | .burstWrite adr kind data =>
    List.zipWith (fun adr word => .write adr (word % 2 ^ g.dataWidth) g.fullSel)
      (kind.addresses g.layout.addrMask adr data.length) data

/-- A transaction has as many beats as it says. -/
@[simp] theorem length_toBeats (g : Geometry) (t : Transaction) : (t.toBeats g).length = t.beats := by
  cases t <;> simp [toBeats, beats]

/-- The beats of a transaction all read, or they all write. -/
theorem we_toBeats (g : Geometry) (t : Transaction) : ∀ b ∈ t.toBeats g, b.we = !t.reads := by
  intro b hb
  cases t with
  | read adr =>
      rw [List.mem_singleton.mp hb]
      rfl
  | write adr data sel =>
      rw [List.mem_singleton.mp hb]
      rfl
  | burstRead adr kind n =>
      obtain ⟨_, _, rfl⟩ := List.mem_map.mp hb
      rfl
  | burstWrite adr kind data =>
      rw [toBeats, ← List.map_uncurry_zip_eq_zipWith] at hb
      obtain ⟨_, _, rfl⟩ := List.mem_map.mp hb
      rfl

end Transaction

/-! ## The requests of the initiator -/

namespace Initiator

variable (i : Initiator)

/-- The requests that the initiator presents for a transaction, each until it is acknowledged. -/
def requests : Transaction → List Bus.Request
  | .read adr => [.read (i.geometry.layout.clip adr) i.geometry.fullSel]
  | .write adr data sel => [.write (i.geometry.layout.clip adr) (i.busWord data) sel]
  | .burstRead adr kind n => i.readBeats adr kind n
  | .burstWrite adr kind data => i.writeBeats adr kind data

/-- The requests stand for the beats of the transaction. -/
theorem toBeat_requests (t : Transaction) :
    (i.requests t).map Bus.Request.toBeat = t.toBeats i.geometry := by
  cases t with
  | read adr => rfl
  | write adr data sel => rfl
  | burstRead adr kind n =>
      have hadrs : kind.addresses i.geometry.layout.addrMask adr n =
          ((kind.addresses i.geometry.layout.addrMask adr n).zip (CycleType.ofBeats n)).map Prod.fst :=
        (List.map_fst_zip (by simp)).symm
      rw [requests, readBeats, List.map_zipWith, Transaction.toBeats, hadrs, List.map_map,
        ← List.map_uncurry_zip_eq_zipWith, ← hadrs]
      rfl
  | burstWrite adr kind data =>
      have hadrs : kind.addresses i.geometry.layout.addrMask adr data.length =
          ((kind.addresses i.geometry.layout.addrMask adr data.length).zip
            (CycleType.ofBeats data.length)).map Prod.fst :=
        (List.map_fst_zip (by simp)).symm
      rw [requests, writeBeats, List.map_zipWith, Transaction.toBeats, hadrs, List.zipWith_map_left, ← hadrs]
      rfl

/-- An initiator presents a request for every beat. -/
theorem length_requests (t : Transaction) : (i.requests t).length = t.beats := by
  rw [← Transaction.length_toBeats i.geometry, ← i.toBeat_requests, List.length_map]

/-- The requests of a transaction all go in its direction. -/
theorem we_requests (t : Transaction) : ∀ r ∈ i.requests t, r.we = !t.reads := by
  intro r hr
  have hbeat : r.toBeat ∈ t.toBeats i.geometry := by
    rw [← i.toBeat_requests]
    exact List.mem_map_of_mem hr
  rw [← r.we_toBeat]
  exact t.we_toBeats i.geometry _ hbeat

/-! ## A transaction as a list of requests -/

variable {S : Type} [Link.BackingStore S]

/-- **A transaction** is its requests one after the other, and a cycle of an idle bus after the last one. -/
theorem execute_eq (t : Transaction) :
    (i.execute t : Run S (List Nat)) = do
      let words ← (i.requests t).mapM i.beat
      Simulator.idle (min 1 t.beats)
      return if t.reads then words else [] := by
  cases t with
  | read adr => simp [execute, read, requests, Transaction.beats, Transaction.reads]
  | write adr data sel => simp [execute, write, requests, Transaction.beats, Transaction.reads]
  | burstRead adr kind n =>
      cases n with
      | zero => simp [execute, burstRead, requests, Transaction.beats, Transaction.reads, Simulator.idle]
      | succ n => simp [execute, burstRead, requests, Transaction.beats, Transaction.reads]
  | burstWrite adr kind data =>
      cases data with
      | nil => simp [execute, burstWrite, requests, Transaction.beats, Transaction.reads, Simulator.idle]
      | cons word data => simp [execute, burstWrite, requests, Transaction.beats, Transaction.reads]

end Initiator

end WriteBack
