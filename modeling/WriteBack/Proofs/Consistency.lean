import WriteBack.Proofs.CoherentRun
import WriteBack.Proofs.Outcome
import WriteBack.Simulator.Traffic

/-!
# WriteBack.Proofs.Consistency

A run of transactions on a cold simulator reads what the transactions mean on a flat memory of zeros, and
leaves that memory behind (`sequentially_consistent`).

`Returns` is what is proved of each computation that drives a simulator: it ends early at a limit, or it
returns with a postcondition. There is one lemma for each of them, from a cycle up to a list of transactions,
and each one says how the memory of the simulator changes.
-/

namespace WriteBack

/-- The run took too many cycles, or a beat waited too long. -/
def RunError.IsLimit : RunError → Prop
  | .timeout .. | .cycleBudget _ => True
  | .protocol _ | .dataMismatch .. => False

section Returns

variable {S α β : Type}

/-- A computation ends early at a limit, or returns a value and a simulator with `Q`. -/
def Returns (x : Run S α) (s : Simulator S) (Q : α → Simulator S → Prop) : Prop :=
  match x.run s with
  | .ok a s' => Q a s'
  | .error e _ => e.IsLimit

theorem returns_pure {a : α} {s : Simulator S} {Q : α → Simulator S → Prop} (h : Q a s) :
    Returns (pure a) s Q := h

theorem returns_throw {e : RunError} (h : e.IsLimit) (s : Simulator S) (Q : α → Simulator S → Prop) :
    Returns (throw e) s Q := h

/-- What returns is taken up by what comes after it. -/
theorem Returns.bind {x : Run S α} {f : α → Run S β} {s : Simulator S} {P : α → Simulator S → Prop}
    {Q : β → Simulator S → Prop} (hx : Returns x s P) (hf : ∀ a s', P a s' → Returns (f a) s' Q) :
    Returns (x >>= f) s Q :=
  Ends.bind (D := fun e _ => e.IsLimit) hx (fun _ _ => id) fun a s' _ h => hf a s' h

/-- What is shown of results may be weakened. -/
theorem Returns.mono {x : Run S α} {s : Simulator S} {P Q : α → Simulator S → Prop} (h : Returns x s P)
    (hPQ : ∀ a s', P a s' → Q a s') : Returns x s Q :=
  Ends.mono (D := fun e _ => e.IsLimit) h hPQ fun _ _ => id

/-- A result has what was shown of results. -/
theorem Returns.of_run_eq_ok {x : Run S α} {a : α} {s s' : Simulator S} {Q : α → Simulator S → Prop}
    (h : Returns x s Q) (hrun : x.run s = .ok a s') : Q a s' :=
  Ends.of_run_eq_ok (E := fun e _ => e.IsLimit) h hrun

/-- What every step keeps is kept by all of them. -/
theorem returns_mapM {I : Simulator S → Prop} {f : β → Run S α} {xs : List β}
    (hstep : ∀ x ∈ xs, ∀ s, I s → Returns (f x) s fun _ s' => I s') {s : Simulator S} (hs : I s) :
    Returns (xs.mapM f) s fun _ s' => I s' :=
  ends_mapM (E := fun e _ => e.IsLimit) hstep hs

end Returns

/-! ## A beat -/

namespace Simulator

/-- Under a watching monitor a cycle returns, unless the cycles are used up. -/
theorem returns_next {S : Type} [Link.BackingStore S] {s : Simulator S}
    (h : s.link.monitor.Watches s.cache) (bus : Bus.Request) :
    Returns (tick bus) s fun response s' => response = s.cache.busResponse bus ∧ s' = s.next bus :=
  (ends_tick h bus).mono (fun _ _ => id) fun _ _ ⟨he, _⟩ => he ▸ trivial

variable {L : Type}

/-- The simulator is sound, of the given geometry, and holds the given words. -/
structure Holds (g : Geometry) (words : Nat → Nat) (s : Simulator (MemoryStore L)) : Prop where
  sound : s.Sound
  geometry_eq : s.cache.geometry = g
  image_eq : s.image = words

/-- A memory of words after a beat. -/
def afterBeat (g : Geometry) (words : Nat → Nat) (bus : Bus.Request) : Nat → Nat :=
  if bus.we = true then g.update words bus.adr bus.sel bus.datW else words

variable {g : Geometry} {words : Nat → Nat} {s : Simulator (MemoryStore L)}

variable [LatencyModel L]

/-- A cycle with a request: a write that is acknowledged changes its word, and a read that is returns it. -/
theorem returns_tick (h : Holds g words s) (bus : Bus.Request) :
    Returns (tick bus) s fun response s' =>
      Holds g (if response.ack = true then afterBeat g words bus else words) s' ∧
        (response.ack = true → bus.we = false → response.datR = words bus.adr) := by
  refine (returns_next h.sound.watches bus).mono fun response s' ⟨hresponse, hs'⟩ => ?_
  subst hresponse hs'
  refine ⟨⟨h.sound.next bus, (Cache.geometry_next ..).trans h.geometry_eq, ?_⟩, fun hack hwe => ?_⟩
  · rw [h.sound.image_next, h.geometry_eq, h.image_eq, afterBeat]
    cases (s.cache.busResponse bus).ack <;> cases bus.we <;> simp
  · rw [h.sound.coherent.datR_eq hack hwe, ← h.image_eq]
    rfl

/-- An idle bus leaves the memory alone. -/
theorem returns_idle (h : Holds g words s) (n : Nat) : Returns (idle n) s fun _ s' => Holds g words s' := by
  induction n generalizing s with
  | zero => exact returns_pure h
  | succ n ih =>
      refine (returns_tick h .idle).bind fun response s' hs' => ih ?_
      simpa [afterBeat, Bus.Request.idle] using hs'.1

end Simulator

namespace Initiator

open Simulator

variable {L : Type} [LatencyModel L] {g : Geometry} {words : Nat → Nat} {s : Simulator (MemoryStore L)}
variable (i : Initiator)

/-- A beat that is acknowledged takes effect once, however long it waits. -/
theorem returns_hold (h : Holds g words s) (bus : Bus.Request) (tries : Nat) :
    Returns (i.hold bus tries) s fun word s' =>
      Holds g (afterBeat g words bus) s' ∧ (bus.we = false → word = words bus.adr) := by
  induction tries generalizing s with
  | zero => exact returns_throw (e := .timeout bus.adr i.timeout) trivial s _
  | succ tries ih =>
      refine (returns_tick h bus).bind fun response s' ⟨hs', hdatR⟩ => ?_
      cases hack : response.ack with
      | true =>
          rw [hack, if_pos rfl] at hs'
          exact returns_pure ⟨hs', hdatR hack⟩
      | false =>
          rw [hack, if_neg (by decide)] at hs'
          exact ih hs'

/-- A beat that returns was acknowledged. -/
theorem returns_beat (h : Holds g words s) (bus : Bus.Request) :
    Returns (i.beat bus) s fun word s' =>
      Holds g (afterBeat g words bus) s' ∧ (bus.we = false → word = words bus.adr) :=
  i.returns_hold h bus _

/-! ## A burst -/

/-- The beats of a burst take effect in their order. -/
theorem returns_mapM_beat (h : Holds g words s) (beats : List Bus.Request) :
    Returns (beats.mapM i.beat) s fun _ s' => Holds g (beats.foldl (afterBeat g) words) s' := by
  induction beats generalizing s words with
  | nil => exact returns_pure h
  | cons bus beats ih =>
      rw [List.mapM_cons]
      refine (i.returns_beat h bus).bind fun _ s' ⟨hs', _⟩ => ?_
      exact (ih hs').bind fun _ _ hs'' => returns_pure hs''

/-- A read burst leaves the memory alone and returns its words. -/
theorem returns_mapM_beat_read (h : Holds g words s) {beats : List Bus.Request}
    (hread : ∀ bus ∈ beats, bus.we = false) :
    Returns (beats.mapM i.beat) s fun observed s' =>
      observed = beats.map (fun bus => words bus.adr) ∧ Holds g words s' := by
  induction beats generalizing s with
  | nil => exact returns_pure ⟨rfl, h⟩
  | cons bus beats ih =>
      have hbus : bus.we = false := hread bus List.mem_cons_self
      rw [List.mapM_cons]
      refine (i.returns_beat h bus).bind fun word s' ⟨hs', hword⟩ => ?_
      rw [afterBeat, hbus, if_neg (by decide)] at hs'
      have hrest : ∀ b ∈ beats, b.we = false := fun b hb => hread b (List.mem_cons_of_mem _ hb)
      refine (ih hs' hrest).bind fun observed s'' hs'' => ?_
      rw [hword hbus, hs''.1]
      exact returns_pure ⟨rfl, hs''.2⟩

/-- The beats of a read burst read at the addresses of the burst. -/
theorem map_readBeats (start : Nat) (kind : BurstKind) (n : Nat) (words : Nat → Nat) :
    (i.readBeats start kind n).map (fun bus => words bus.adr) =
      (kind.addresses i.geometry.layout.addrMask start n).map words := by
  have hfst : ((kind.addresses i.geometry.layout.addrMask start n).zip (CycleType.ofBeats n)).map Prod.fst =
      kind.addresses i.geometry.layout.addrMask start n :=
    List.map_fst_zip (by simp)
  rw [readBeats, List.map_zipWith, ← List.map_uncurry_zip_eq_zipWith]
  exact (List.map_map ..).symm.trans (congrArg (List.map words) hfst)

theorem we_readBeats (start : Nat) (kind : BurstKind) (n : Nat) :
    ∀ bus ∈ i.readBeats start kind n, bus.we = false := by
  intro bus hbus
  rw [readBeats, ← List.map_uncurry_zip_eq_zipWith] at hbus
  obtain ⟨_, _, rfl⟩ := List.mem_map.mp hbus
  rfl

/-- The beats of a write burst write each word, as a whole, at its address. -/
theorem foldl_writeBeats (start : Nat) (kind : BurstKind) (data : List Nat) (words : Nat → Nat) :
    (i.writeBeats start kind data).foldl (afterBeat i.geometry) words =
      ((kind.addresses i.geometry.layout.addrMask start data.length).zip data).foldl
        (fun words w => i.geometry.update words w.1 i.geometry.fullSel w.2) words := by
  have hadrs : (kind.addresses i.geometry.layout.addrMask start data.length).length = data.length := by
    simp
  have hctis : (CycleType.ofBeats data.length).length = data.length := by
    simp
  rw [writeBeats]
  generalize kind.addresses i.geometry.layout.addrMask start data.length = adrs at hadrs ⊢
  generalize CycleType.ofBeats data.length = ctis at hctis ⊢
  induction data generalizing adrs ctis words with
  | nil => simp
  | cons word data ih =>
      cases adrs with
      | nil => cases hadrs
      | cons adr adrs =>
          cases ctis with
          | nil => cases hctis
          | cons cti ctis =>
              rw [List.zip_cons_cons, List.zipWith_cons_cons, List.zip_cons_cons, List.foldl_cons,
                List.foldl_cons, ih _ adrs (Nat.succ.inj hadrs) ctis (Nat.succ.inj hctis)]
              congr 1
              exact i.geometry.update_mod words adr i.geometry.fullSel word

/-! ## A transaction -/

/-- **A transaction** returns the words that it means, and leaves the memory that it means. -/
theorem returns_execute (h : Holds i.geometry words s) (t : Transaction) :
    Returns (i.execute t) s fun observed s' =>
      observed = (t.perform i.geometry words).1 ∧ Holds i.geometry (t.perform i.geometry words).2 s' := by
  cases t with
  | read adr =>
      refine Returns.bind (P := fun word s' => word = words (i.geometry.layout.clip adr) ∧
        Holds i.geometry words s') ?_ fun word s' ⟨hword, hs'⟩ => returns_pure ⟨by rw [hword]; rfl, hs'⟩
      refine (i.returns_beat h _).bind fun word s' ⟨hs', hword⟩ => ?_
      refine (returns_idle hs' 1).bind fun _ s'' hs'' => returns_pure ⟨hword rfl, hs''⟩
  | write adr data sel =>
      have hwrite : afterBeat i.geometry words
          (.write (i.geometry.layout.clip adr) (i.busWord data) sel) = i.geometry.update words adr sel data := by
        show i.geometry.update words (i.geometry.layout.clip adr) sel (i.busWord data) = _
        rw [i.geometry.update_clip, busWord, i.geometry.update_mod]
      refine Returns.bind (P := fun _ s' => Holds i.geometry (i.geometry.update words adr sel data) s') ?_
        fun _ s' hs' => returns_pure ⟨rfl, hs'⟩
      refine (i.returns_beat h _).bind fun _ s' ⟨hs', _⟩ => returns_idle (hwrite ▸ hs') 1
  | burstRead adr kind n =>
      refine (i.returns_mapM_beat_read h (i.we_readBeats adr kind n)).bind fun observed s' ⟨hobs, hs'⟩ => ?_
      rw [i.map_readBeats] at hobs
      show Returns (if 0 < n then idle 1 >>= fun _ => pure observed else pure observed) s' _
      split
      · exact (returns_idle hs' 1).bind fun _ _ hs'' => returns_pure ⟨hobs, hs''⟩
      · exact returns_pure ⟨hobs, hs'⟩
  | burstWrite adr kind data =>
      refine Returns.bind (P := fun _ s' => Holds i.geometry
        (Transaction.perform i.geometry words (.burstWrite adr kind data)).2 s') ?_
        fun _ s' hs' => returns_pure ⟨rfl, hs'⟩
      refine (i.returns_mapM_beat h (i.writeBeats adr kind data)).bind fun _ s' hs' => ?_
      rw [i.foldl_writeBeats] at hs'
      split
      · exact returns_idle hs' 1
      · exact returns_pure hs'

end Initiator

/-! ## A list of transactions -/

namespace Simulator

variable {words : Nat → Nat}

/-- Transactions from a memory on that the check agrees with: it accepts every word read. -/
theorem returns_runFrom {L : Type} [LatencyModel L] (i : Initiator) {s : Simulator (MemoryStore L)}
    (h : Holds i.geometry words s) {shadow : ShadowMemory} (hgeometry : shadow.geometry = i.geometry)
    (hread : shadow.read = words) (seen : List Nat) (transactions : List Transaction) :
    Returns (runFrom i shadow seen transactions) s fun reads s' =>
      reads = seen.reverse ++ (Transaction.performAll i.geometry words transactions).1 ∧
        Holds i.geometry (Transaction.performAll i.geometry words transactions).2 s' := by
  induction transactions generalizing words s shadow seen with
  | nil => exact returns_pure ⟨(List.append_nil _).symm, h⟩
  | cons t rest ih =>
      obtain ⟨shadow', hcheck, hgeometry', hread'⟩ := shadow.check_perform t
      rw [hgeometry, hread] at hcheck hread'
      rw [runFrom]
      refine (i.returns_execute h t).bind fun observed s' ⟨hobserved, hs'⟩ => ?_
      rw [hobserved, hcheck]
      refine (ih hs' (hgeometry'.trans hgeometry) hread' _).mono fun reads s'' ⟨hreads, hs''⟩ => ⟨?_, hs''⟩
      rw [hreads, List.reverse_append, List.reverse_reverse, List.append_assoc]
      rfl

/-- A fresh simulator of a configuration has the latencies of the configuration and an empty store. -/
theorem ofConfig_eq_ok {config : Config} {s : Simulator (MemoryStore Timing)}
    (h : ofConfig config = .ok s) :
    ∃ g, Geometry.ofConfig config.cache config.backing = .ok g ∧
      s = ofContents config g (.ofConfig config.backing) [] := by
  rw [ofConfig, Cache.ofConfig] at h
  cases hg : Geometry.ofConfig config.cache config.backing with
  | error e =>
      rw [hg] at h
      cases h
  | ok g =>
      rw [hg] at h
      cases h
      exact ⟨g, rfl, rfl⟩

/-- A fresh simulator holds zeros. -/
theorem holds_ofConfig {config : Config} {s : Simulator (MemoryStore Timing)}
    (h : ofConfig config = .ok s) : Holds s.cache.geometry (fun _ => 0) s := by
  obtain ⟨g, hg, rfl⟩ := ofConfig_eq_ok h
  have hzero (line tag : Nat) := readBlock_ofContents_nil hg (Timing.ofConfig config.backing)
    (g.layout.blockAddr line tag)
  refine ⟨sound_ofContents hg _ [] fun line _ => hzero line _, rfl, ?_⟩
  funext adr
  refine (image_ofGeometry (fun line _ => hzero line _) adr).trans ?_
  rw [hzero, Block.word_zeros]

/-- **Sequential consistency**, for every configuration and every list of transactions. A run on a fresh
simulator never ends with a wrong word or a broken rule of the link. It runs out of cycles, or out of patience
with a beat, or it reads exactly the words that the transactions read one after the other from a flat memory
of zeros, and then the cache and its store hold what the transactions leave in that memory. -/
theorem sequentially_consistent {config : Config} {s : Simulator (MemoryStore Timing)}
    (h : ofConfig config = .ok s) (transactions : List Transaction) :
    (∀ reads s', (runTransactions transactions).run s = .ok reads s' →
      reads = (Transaction.performAll s.cache.geometry (fun _ => 0) transactions).1 ∧
        ∀ adr, s'.image adr = (Transaction.performAll s.cache.geometry (fun _ => 0) transactions).2 adr) ∧
      ∀ e s', (runTransactions transactions).run s = .error e s' →
        (∃ addr cycles, e = .timeout addr cycles) ∨ ∃ cycles, e = .cycleBudget cycles := by
  have hrun : Returns (runTransactions transactions) s fun reads s' =>
      reads = (Transaction.performAll s.cache.geometry (fun _ => 0) transactions).1 ∧
        Holds s.cache.geometry (Transaction.performAll s.cache.geometry (fun _ => 0) transactions).2 s' :=
    returns_runFrom ⟨s.cache.geometry, s.timeoutCycles⟩ (holds_ofConfig h) rfl
      (ShadowMemory.read_empty _) [] transactions
  rw [Returns] at hrun
  refine ⟨fun reads s' hresult => ?_, fun e s' hresult => ?_⟩
  · rw [hresult] at hrun
    exact ⟨hrun.1, fun adr => congrFun hrun.2.image_eq adr⟩
  · rw [hresult] at hrun
    cases e with
    | timeout addr cycles => exact .inl ⟨addr, cycles, rfl⟩
    | cycleBudget cycles => exact .inr ⟨cycles, rfl⟩
    | protocol v => cases hrun
    | dataMismatch addr expected actual => cases hrun

/-- A fresh simulator of a cache with one line. -/
def tinySimulator : Simulator (MemoryStore Timing) :=
  ofStore (Cache.ofGeometry tiny) (.ofConfig tinyConfig.backing) tinyConfig.general

theorem ofConfig_tiny : ofConfig tinyConfig = .ok tinySimulator := rfl

/-- A partial write, and a burst that comes around to it. -/
theorem sequentially_consistent_tiny :
    ∃ reads s, ofConfig tinyConfig = .ok tinySimulator ∧
      (runTransactions [.write 1 0xabcd 1, .burstRead 6 .linear 4]).run tinySimulator = .ok reads s ∧
      reads = [0, 0, 0, 0xcd] := by
  have hok : ((runTransactions [.write 1 0xabcd 1, .burstRead 6 .linear 4]).run'
      tinySimulator).isSome = true := by
    decide +kernel
  cases hrun : (runTransactions [.write 1 0xabcd 1, .burstRead 6 .linear 4]).run tinySimulator with
  | ok reads s =>
      have hreads := (sequentially_consistent ofConfig_tiny _).1 reads s hrun
      exact ⟨reads, s, ofConfig_tiny, rfl, hreads.1.trans (by decide +kernel)⟩
  | error e s =>
      delta EStateM.run' at hok
      rw [hrun] at hok
      cases hok

end Simulator

end WriteBack
