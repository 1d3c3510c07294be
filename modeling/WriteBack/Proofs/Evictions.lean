import WriteBack.Proofs.Protocol

/-!
# WriteBack.Proofs.Evictions

When a line is written back, and with what. The statements are about the cycles of a run, not about the
registers of the cache: a line is dirty when a write to it was acknowledged after its last refill
(`DirtySince`), every write in the log of the monitor belongs to a miss on a dirty line and carries that line
as a whole (`WritesBack`), and the next entry of the log is the read that replaces it (`FollowedBy`).

Three invariants carry this over a run: `Trace.dirty_iff` on the dirty bits, `Trace.stalled` on the miss that
the cache waits for, and `Trace.logged` on the log.
-/

namespace WriteBack

open Link

/-! ## The dirty bit over one cycle -/

namespace Cache

variable {c : Cache}

/-- No read beat goes across while requests are served. -/
theorem resolve_check (hs : c.state = .check) (link : Response) :
    (Transfers.resolve c.linkRequest link).read = none := by
  simp [linkRequest, hs, Transfers.resolve]

/-- No read beat goes across while a line is evicted. -/
theorem resolve_evict {p : Progress} (hs : c.state = .evict p) (link : Response) :
    (Transfers.resolve c.linkRequest link).read = none := by
  simp [linkRequest, evictRequest, hs, Transfers.resolve]

/-- An acknowledged write sets the dirty bit of its line, the read beat of a refill clears it, and nothing
else touches it. -/
theorem dirty_next (hv : c.Valid) (bus : Bus.Request) (link : Response) {i : Nat} {l : Line}
    (hl : c.line? i = some l) :
    ∃ l', (c.next bus link).line? i = some l' ∧ (l'.dirty = true ↔
      ((c.busResponse bus).ack = true ∧ bus.we = true ∧ (c.target bus).line = i) ∨
        (l.dirty = true ∧
          ¬((Transfers.resolve c.linkRequest link).read.isSome = true ∧ c.missed.line = i))) := by
  rw [ack_busResponse]
  cases hs : c.state with
  | check =>
      rw [next_check hs, line?_checkEdge, resolve_check hs, hl]
      by_cases hw : c.writesLine bus i = true
      · have hwrite := (c.writesLine_iff bus i).mp hw
        rw [if_pos hw]
        exact ⟨c.overwrite bus l, rfl, by simp [overwrite, hwrite]⟩
      · rw [if_neg hw]
        rw [writesLine_iff] at hw
        exact ⟨l, rfl, by simp [hw]⟩
  | evict p =>
      rw [next_evict hs, line?_evictEdge, resolve_evict hs, hl]
      exact ⟨l, rfl, by simp⟩
  | refill p =>
      rw [next_refill hs, line?_refillEdge]
      cases (Transfers.resolve c.linkRequest link).read with
      | none => exact ⟨l, hl, by simp⟩
      | some block =>
          dsimp only
          rw [hv.line?_install block i (line?_eq_some.mp hl).1]
          by_cases hline : c.missed.line = i
          · rw [if_pos hline]
            exact ⟨_, rfl, by simp [hline]⟩
          · rw [if_neg hline]
            exact ⟨l, hl, by simp [hline]⟩

end Cache

namespace Simulator

variable {S : Type}

/-! ## What a cycle of a run does -/

namespace Cycle

/-- The fields of the address on the bus. -/
def target (c : Cycle S) : Address := c.before.cache.target c.bus

/-- A write to the line is acknowledged. -/
def WritesTo (c : Cycle S) (line : Nat) : Prop :=
  c.response.ack = true ∧ c.bus.we = true ∧ c.target.line = line

/-- The cache takes a read beat for the line. -/
def Refills [BackingStore S] (c : Cycle S) (line : Nat) : Prop :=
  c.before.transfers.read.isSome = true ∧ c.before.cache.missed.line = line

/-- The cache serves requests, and the one on the bus misses: its line holds `victim` instead. -/
structure Misses (c : Cycle S) (victim : Cache.Line) : Prop where
  serving : c.before.cache.state = .check
  misses : c.before.cache.misses c.bus = true
  line?_eq : c.before.cache.line? c.target.line = some victim

/-- The cache is writing the line back, which holds `victim`. -/
structure Evicts (c : Cycle S) (line : Nat) (victim : Cache.Line) : Prop where
  evicting : ∃ p, c.before.cache.state = .evict p
  line?_eq : c.before.cache.line? line = some victim

/-- The cache is fetching a block. -/
def Fetches (c : Cycle S) : Prop := ∃ p, c.before.cache.state = .refill p

/-- While the cache fetches a block it offers no write. -/
theorem Fetches.offers_no_write {c : Cycle S} (h : c.Fetches) :
    c.before.cache.linkRequest.write = none ∧
      ∀ command ∈ c.before.cache.linkRequest.command, command.we = false := by
  obtain ⟨p, hs⟩ := h
  rw [Cache.linkRequest, hs]
  refine ⟨rfl, fun command hc => ?_⟩
  simp only [Cache.refillRequest, Option.mem_def] at hc
  split at hc
  · cases hc
  · rw [← Option.some.inj hc]

end Cycle

/-! ## When a line is dirty -/

section Dirty

variable [BackingStore S]

/-- A write to the line was acknowledged after the last refill of the line, if there was one, or the line
was never refilled and started out dirty. -/
def DirtySince (startsDirty : Bool) (cycles : List (Cycle S)) (line : Nat) : Prop :=
  (∃ earlier write later, cycles = earlier ++ write :: later ∧ write.WritesTo line ∧
    ∀ c ∈ later, ¬c.Refills line) ∨
  (startsDirty = true ∧ ∀ c ∈ cycles, ¬c.Refills line)

/-- A line is dirty after a cycle that writes it, and clean after one that refills it. -/
theorem dirtySince_append (startsDirty : Bool) (cycles : List (Cycle S)) (c : Cycle S) (line : Nat) :
    DirtySince startsDirty (cycles ++ [c]) line ↔
      c.WritesTo line ∨ (DirtySince startsDirty cycles line ∧ ¬c.Refills line) := by
  constructor
  · rintro (⟨earlier, write, later, heq, hwrite, hlater⟩ | ⟨hstart, hnever⟩)
    · rcases List.eq_nil_or_concat later with rfl | ⟨later', d, rfl⟩
      · obtain ⟨_, hc⟩ := List.append_inj' heq rfl
        rw [List.singleton_inj.mp hc]
        exact .inl hwrite
      · rw [List.concat_eq_append] at heq hlater
        rw [← List.cons_append, ← List.append_assoc] at heq
        obtain ⟨hcycles, hc⟩ := List.append_inj' heq rfl
        obtain ⟨hlater', hd⟩ := List.forall_mem_append.mp hlater
        rw [List.singleton_inj.mp hc]
        exact .inr ⟨.inl ⟨earlier, write, later', hcycles, hwrite, hlater'⟩,
          hd d (List.mem_singleton_self d)⟩
    · obtain ⟨hcycles, hc⟩ := List.forall_mem_append.mp hnever
      exact .inr ⟨.inr ⟨hstart, hcycles⟩, hc c (List.mem_singleton_self c)⟩
  · rintro (hwrite | ⟨⟨earlier, write, later, rfl, hwrite, hlater⟩ | ⟨hstart, hnever⟩, hc⟩)
    · exact .inl ⟨cycles, c, [], rfl, hwrite, List.forall_mem_nil _⟩
    · exact .inl ⟨earlier, write, later ++ [c], by simp, hwrite,
        List.forall_mem_append.mpr ⟨hlater, List.forall_mem_singleton.mpr hc⟩⟩
    · exact .inr ⟨hstart, List.forall_mem_append.mpr ⟨hnever, List.forall_mem_singleton.mpr hc⟩⟩

/-- **The dirty bit**: every line is there, and it is dirty exactly when the run has left it so. -/
theorem Trace.dirty_iff {g : Geometry} {store : S} {general : Config.General} {cycles : List (Cycle S)}
    {s : Simulator S} (h : Trace (ofStore (Cache.ofGeometry g) store general) cycles s) {i : Nat}
    (hi : i < g.lines) :
    ∃ l, s.cache.line? i = some l ∧ (l.dirty = true ↔ DirtySince g.dirtyInit cycles i) := by
  induction h with
  | nil =>
      refine ⟨_, Cache.line?_ofGeometry g hi, ?_⟩
      simp [DirtySince]
  | @snoc cycles s s' bus response ht hstep ih =>
      obtain ⟨l, hl, hiff⟩ := ih
      obtain ⟨_, _, rfl, rfl⟩ := run_tick_eq_ok.mp hstep
      obtain ⟨l', hl', hdirty⟩ := Cache.dirty_next ht.valid bus s.link.drive hl
      refine ⟨l', hl', ?_⟩
      rw [hdirty, hiff, dirtySince_append]
      exact Iff.rfl

end Dirty

/-! ## What the log says of evictions -/

/-- The operation at position `i` of the log writes a line back. The line missed while it was dirty; from the
next cycle on until the operation is filed the cache does nothing but write it back, and the line keeps what
the operation carries. -/
structure WritesBack (g : Geometry) (cycles : List (Cycle S)) (i : Nat) (op : Operation)
    (miss : Cycle S) (victim : Cache.Line) : Prop where
  misses : miss.Misses victim
  dirty : victim.dirty = true
  tag_ne : victim.tag ≠ miss.target.tag
  op_eq : op = ⟨op.cycle, g.layout.blockAddr miss.target.line victim.tag, true, false, victim.data,
    g.fullByteEnable⟩
  filed : ∃ earlier stall back later, cycles = earlier ++ miss :: (stall ++ back :: later) ∧
    (∀ c ∈ stall ++ [back], c.Evicts miss.target.line victim) ∧
    back.before.link.monitor.log.size = i ∧
    back.after.link.monitor.log = back.before.link.monitor.log.push op

/-- What comes after the write-back in the log: the read of the block that missed, into the same line. Until
that is there, the cache is still busy with the miss. -/
def FollowedBy (g : Geometry) (s : Simulator S) (miss : Cycle S) : Option Operation → Prop
  | some op => op.we = false ∧ op.last = true ∧ op.byteEnable = 0 ∧
      op.addr = g.layout.blockAddr miss.target.line miss.target.tag
  | none => s.cache.missed = miss.target ∧
      ((∃ p, s.cache.state = .evict p ∧ p.isDone = true) ∨
        ∃ p, s.cache.state = .refill p ∧ p.isDone = false)

/-- Every write in the log is a write-back and is followed by its read. -/
def Logged (g : Geometry) (cycles : List (Cycle S)) (s : Simulator S) : Prop :=
  ∀ i op, s.link.monitor.log[i]? = some op → op.we = true →
    ∃ miss victim, WritesBack g cycles i op miss victim ∧
      FollowedBy g s miss s.link.monitor.log[i + 1]?

/-- What was written back stays so. -/
theorem WritesBack.append {g : Geometry} {cycles : List (Cycle S)} {i : Nat} {op : Operation}
    {miss : Cycle S} {victim : Cache.Line} (h : WritesBack g cycles i op miss victim) (c : Cycle S) :
    WritesBack g (cycles ++ [c]) i op miss victim := by
  obtain ⟨hmiss, hdirty, htag, hop, earlier, stall, back, later, rfl, hfiled⟩ := h
  exact ⟨hmiss, hdirty, htag, hop, earlier, stall, back, later ++ [c], by simp, hfiled⟩

/-- A cycle that files nothing. -/
theorem Logged.keep {g : Geometry} {cycles : List (Cycle S)} {s s' : Simulator S}
    (h : Logged g cycles s) (c : Cycle S) (hlog : s'.link.monitor.log = s.link.monitor.log)
    (hnext : ∀ miss, FollowedBy g s miss none → FollowedBy g s' miss none) :
    Logged g (cycles ++ [c]) s' := by
  intro i op hop hwe
  rw [hlog] at hop ⊢
  obtain ⟨miss, victim, hback, hfollow⟩ := h i op hop hwe
  refine ⟨miss, victim, hback.append c, ?_⟩
  cases hread : s.link.monitor.log[i + 1]? with
  | none => exact hnext miss (hread ▸ hfollow)
  | some read =>
      rw [hread] at hfollow
      exact hfollow

/-- A cycle that files an operation: it is what the last write-back waits for, or a write-back itself. -/
theorem Logged.push {g : Geometry} {cycles : List (Cycle S)} {s s' : Simulator S}
    (h : Logged g cycles s) (c : Cycle S) {new : Operation}
    (hlog : s'.link.monitor.log = s.link.monitor.log.push new)
    (hnext : ∀ miss, FollowedBy g s miss none → FollowedBy g s' miss (some new))
    (hnew : new.we = true → ∃ miss victim,
      WritesBack g (cycles ++ [c]) s.link.monitor.log.size new miss victim ∧ FollowedBy g s' miss none) :
    Logged g (cycles ++ [c]) s' := by
  intro i op hop hwe
  rw [hlog, Array.getElem?_push] at hop
  rw [hlog, Array.getElem?_push]
  by_cases hi : i = s.link.monitor.log.size
  · rw [if_pos hi] at hop
    cases hop
    subst hi
    obtain ⟨miss, victim, hback, hfollow⟩ := hnew hwe
    refine ⟨miss, victim, hback, ?_⟩
    rwa [if_neg (by omega), Array.getElem?_eq_none (by omega)]
  · rw [if_neg hi] at hop
    obtain ⟨miss, victim, hback, hfollow⟩ := h i op hop hwe
    refine ⟨miss, victim, hback.append c, ?_⟩
    by_cases hlast : i + 1 = s.link.monitor.log.size
    · rw [if_pos hlast]
      rw [Array.getElem?_eq_none (by omega)] at hfollow
      exact hnext miss hfollow
    · have hlt := (Array.getElem?_eq_some_iff.mp hop).1
      rw [if_neg hlast]
      rw [Array.getElem?_eq_getElem (by omega)] at hfollow ⊢
      exact hfollow

/-! ## What one cycle adds to the log -/

section Log

variable [BackingStore S] {s : Simulator S}

/-- No operation is filed while requests are served. -/
theorem log_next_check (hw : s.link.monitor.Watches s.cache) (hs : s.cache.state = .check)
    (bus : Bus.Request) : (s.next bus).link.monitor.log = s.link.monitor.log := by
  rw [monitor_next, observed, transfers, Monitor.observe_check hw hs]
  rfl

/-- The cycle that completes an eviction files it. -/
theorem log_next_evict (hw : s.link.monitor.Watches s.cache) {p : Progress} (hs : s.cache.state = .evict p)
    (bus : Bus.Request) :
    (s.next bus).link.monitor.log =
      if !p.isDone && (Cache.evictProgress p s.transfers).isDone then
        s.link.monitor.log.push (s.cache.evictOperation s.link.monitor.cycle)
      else s.link.monitor.log := by
  rw [monitor_next, observed, transfers, Monitor.observe_evict hw hs]

/-- The cycle that completes a refill files it, with the block that came across. -/
theorem log_next_refill (hw : s.link.monitor.Watches s.cache) {p : Progress}
    (hs : s.cache.state = .refill p) (bus : Bus.Request) :
    (s.next bus).link.monitor.log =
      if !p.isDone && (Cache.refillProgress p s.transfers).isDone then
        s.link.monitor.log.push (s.cache.refillOperation s.link.monitor.cycle
          ((s.transfers.read <|> s.link.monitor.read).getD []))
      else s.link.monitor.log := by
  rw [monitor_next, observed, transfers, Monitor.observe_refill hw hs]

/-- A cycle of a refill completes no write. -/
theorem writes_next_refill (hw : s.link.monitor.Watches s.cache) {p : Progress}
    (hs : s.cache.state = .refill p) (bus : Bus.Request) :
    (s.next bus).link.monitor.writes = s.link.monitor.writes := by
  rw [Monitor.writes, log_next_refill hw hs]
  split
  · rw [Array.filter_push]
    simp [Cache.refillOperation, Monitor.writes]
  · rfl

end Log

/-! ## Every write in the log is a write-back -/

section Cold

variable [BackingStore S] {g : Geometry} {store : S} {general : Config.General} {cycles : List (Cycle S)} {s : Simulator S}

/-- A cache that writes a line back does so for a miss of the run, and has done nothing else since. -/
theorem Trace.evicting (h : Trace (ofStore (Cache.ofGeometry g) store general) cycles s) {p : Progress}
    (hs : s.cache.state = .evict p) :
    ∃ earlier miss stall, cycles = earlier ++ miss :: stall ∧ miss.Misses s.cache.loaded ∧
      s.cache.missed = miss.target ∧ ∀ c ∈ stall, c.Evicts miss.target.line s.cache.loaded := by
  induction h generalizing p with
  | nil => cases hs
  | @snoc cycles s s' bus response ht hstep ih =>
      obtain ⟨_, _, rfl, rfl⟩ := run_tick_eq_ok.mp hstep
      rw [cache_next] at hs ⊢
      cases hstate : s.cache.state with
      | check =>
          rw [Cache.next_check hstate] at hs ⊢
          rw [Cache.state_checkEdge] at hs
          cases hmiss : s.cache.misses bus with
          | false =>
              simp [hmiss] at hs
          | true =>
              have hloaded := s.cache.loaded_checkEdge_of_misses bus hmiss
              have hline := (ht.valid.line?_of_misses hmiss).1
              rw [hloaded, s.cache.missed_checkEdge_of_misses bus hmiss]
              exact ⟨cycles, ⟨s, bus, s.cache.busResponse bus, s.next bus⟩, [], rfl,
                ⟨hstate, hmiss, hline⟩, rfl, by simp⟩
      | evict q =>
          obtain ⟨earlier, miss, stall, rfl, hmiss, htarget, hall⟩ := ih hstate
          obtain ⟨hawaits, hstale, _⟩ := ht.valid.evict_settled hstate
          have hline := ht.valid.line?_of_awaits hawaits hstale
          rw [htarget] at hline
          rw [Cache.next_evict hstate, Cache.loaded_evictEdge, Cache.missed_evictEdge]
          exact ⟨earlier, miss, stall ++ [⟨s, bus, s.cache.busResponse bus, s.next bus⟩], by simp, hmiss,
            htarget, List.forall_mem_append.mpr ⟨hall, List.forall_mem_singleton.mpr ⟨⟨q, hstate⟩, hline⟩⟩⟩
      | refill q =>
          rw [Cache.next_refill hstate, Cache.state_refillEdge] at hs
          cases hdone : q.isDone <;> simp [hdone] at hs

/-- The operation that an eviction completes is a write-back. -/
theorem Trace.writesBack (h : Trace (ofStore (Cache.ofGeometry g) store general) cycles s) {p : Progress}
    (hs : s.cache.state = .evict p) {c : Cycle S} (hc : c.before = s) {op : Operation}
    (hop : op = s.cache.evictOperation s.link.monitor.cycle)
    (hlog : c.after.link.monitor.log = s.link.monitor.log.push op) :
    ∃ miss victim, WritesBack g (cycles ++ [c]) s.link.monitor.log.size op miss victim ∧
      s.cache.missed = miss.target := by
  obtain ⟨earlier, miss, stall, rfl, hmiss, htarget, hall⟩ := h.evicting hs
  obtain ⟨hawaits, hstale, hdirty⟩ := h.valid.evict_settled hs
  have hline := h.valid.line?_of_awaits hawaits hstale
  rw [htarget] at hline
  refine ⟨miss, s.cache.loaded, ⟨hmiss, hdirty, htarget ▸ hawaits.tag_ne, ?_, ?_⟩, htarget⟩
  · rw [hop, ← htarget, ← h.geometry_eq_cold]
    rfl
  · have hc' : c.Evicts miss.target.line s.cache.loaded := ⟨⟨p, hc ▸ hs⟩, hc ▸ hline⟩
    exact ⟨earlier, stall, c, [], by simp,
      List.forall_mem_append.mpr ⟨hall, List.forall_mem_singleton.mpr hc'⟩, by rw [hc], by rw [hc, hlog]⟩

/-- A cycle of an eviction leaves every write in the log accounted for. -/
theorem Trace.logged_evict (h : Trace (ofStore (Cache.ofGeometry g) store general) cycles s)
    (hlogged : Logged g cycles s) {p : Progress} (hs : s.cache.state = .evict p) (bus : Bus.Request)
    (response : Bus.Response) : Logged g (cycles ++ [⟨s, bus, response, s.next bus⟩]) (s.next bus) := by
  have hlog := log_next_evict h.watches hs bus
  have hcache : (s.next bus).cache = s.cache.evictEdge p s.transfers := Cache.next_evict hs bus _
  have hstate := s.cache.state_evictEdge p s.transfers
  rw [← hcache] at hstate
  cases hdone : p.isDone with
  | true =>
      rw [hdone] at hlog hstate
      refine hlogged.keep _ hlog fun miss hfollow => ⟨?_, .inr ⟨{}, hstate, rfl⟩⟩
      rw [hcache]
      exact hfollow.1
  | false =>
      -- an operation waits for its read only when its own eviction is done
      have hnone : ∀ miss, ¬FollowedBy g s miss none := by
        intro miss hfollow
        simp [FollowedBy, hs, hdone] at hfollow
      rw [hdone] at hlog hstate
      cases hdone' : (Cache.evictProgress p s.transfers).isDone with
      | false =>
          rw [hdone'] at hlog
          exact hlogged.keep _ hlog fun miss hfollow => absurd hfollow (hnone miss)
      | true =>
          rw [hdone'] at hlog
          refine hlogged.push _ hlog (fun miss hfollow => absurd hfollow (hnone miss)) fun _ => ?_
          obtain ⟨miss, victim, hback, htarget⟩ :=
            h.writesBack (c := ⟨s, bus, response, s.next bus⟩) hs rfl rfl hlog
          refine ⟨miss, victim, hback, ?_, .inl ⟨_, hstate, hdone'⟩⟩
          rw [hcache]
          exact htarget

/-- So does a cycle of a refill. -/
theorem Trace.logged_refill (h : Trace (ofStore (Cache.ofGeometry g) store general) cycles s)
    (hlogged : Logged g cycles s) {p : Progress} (hs : s.cache.state = .refill p) (bus : Bus.Request)
    (response : Bus.Response) : Logged g (cycles ++ [⟨s, bus, response, s.next bus⟩]) (s.next bus) := by
  have hlog := log_next_refill h.watches hs bus
  have hcache : (s.next bus).cache = s.cache.refillEdge p s.transfers := Cache.next_refill hs bus _
  have hstate := s.cache.state_refillEdge p s.transfers
  rw [← hcache] at hstate
  cases hdone : p.isDone with
  | true =>
      rw [hdone] at hlog
      refine hlogged.keep _ hlog fun miss hfollow => ?_
      simp [FollowedBy, hs, hdone] at hfollow
  | false =>
      rw [hdone] at hlog hstate
      cases hdone' : (Cache.refillProgress p s.transfers).isDone with
      | false =>
          rw [hdone'] at hlog
          refine hlogged.keep _ hlog fun miss hfollow => ⟨?_, .inr ⟨_, hstate, hdone'⟩⟩
          rw [hcache, Cache.missed_refillEdge]
          exact hfollow.1
      | true =>
          rw [hdone'] at hlog
          refine hlogged.push _ hlog (fun miss hfollow => ⟨rfl, rfl, rfl, ?_⟩) fun hwe => by cases hwe
          rw [← hfollow.1, ← h.geometry_eq_cold]
          rfl

/-- **The log**: wherever a run leads, every write in the log is a write-back and is followed by its read. -/
theorem Trace.logged (h : Trace (ofStore (Cache.ofGeometry g) store general) cycles s) :
    Logged g cycles s := by
  induction h with
  | nil =>
      intro i op hop
      simp [ofStore] at hop
  | @snoc cycles s s' bus response ht hstep ih =>
      obtain ⟨_, _, rfl, rfl⟩ := run_tick_eq_ok.mp hstep
      cases hs : s.cache.state with
      | check =>
          refine ih.keep _ (log_next_check ht.watches hs bus) fun miss hfollow => ?_
          simp [FollowedBy, hs] at hfollow
      | evict p => exact ht.logged_evict ih hs bus _
      | refill p => exact ht.logged_refill ih hs bus _

/-! ## A miss on a clean line -/

/-- A cache that fetches a block goes on to do so, without a write, until it serves requests again. -/
theorem Trace.fetching {start : Simulator S} (h : Trace start cycles s)
    (hw : start.link.monitor.Watches start.cache) {p : Progress} (hstart : start.cache.state = .refill p)
    (hstall : ∀ c ∈ cycles, c.before.cache.state.isStalled = true) :
    (s.cache.state = .check ∨ ∃ p, s.cache.state = .refill p) ∧
      s.link.monitor.writes = start.link.monitor.writes ∧
      ∀ c ∈ cycles, c.Fetches ∧ c.after.link.monitor.writes = start.link.monitor.writes := by
  induction h with
  | nil => exact ⟨.inr ⟨p, hstart⟩, rfl, by simp⟩
  | @snoc cycles s s' bus response ht hstep ih =>
      obtain ⟨hstall', hlast⟩ := List.forall_mem_append.mp hstall
      obtain ⟨hstate, hwrites, hall⟩ := ih hstall'
      obtain ⟨_, _, rfl, rfl⟩ := run_tick_eq_ok.mp hstep
      cases hstate with
      | inl hcheck =>
          have hstalled := List.forall_mem_singleton.mp hlast
          rw [hcheck] at hstalled
          cases hstalled
      | inr hrefill =>
          obtain ⟨q, hs⟩ := hrefill
          have hwatches : s.link.monitor.Watches s.cache :=
            ht.invariant (P := fun s => s.link.monitor.Watches s.cache) hw
              fun s bus hw => (Monitor.watches_next hw bus s.link.drive).2
          have hnext : (s.next bus).link.monitor.writes = start.link.monitor.writes :=
            (writes_next_refill hwatches hs bus).trans hwrites
          refine ⟨?_, hnext,
            List.forall_mem_append.mpr ⟨hall, List.forall_mem_singleton.mpr ⟨⟨q, hs⟩, hnext⟩⟩⟩
          rw [cache_next, Cache.next_refill hs, Cache.state_refillEdge]
          cases q.isDone with
          | true => exact .inl rfl
          | false => exact .inr ⟨_, rfl⟩

/-- A miss on a clean line goes straight to the refill. -/
theorem Trace.clean_miss (h : Trace (ofStore (Cache.ofGeometry g) store general) cycles s)
    {earlier stall later : List (Cycle S)} {miss : Cycle S} {victim : Cache.Line}
    (hcycles : cycles = earlier ++ miss :: (stall ++ later)) (hmiss : miss.Misses victim)
    (hclean : victim.dirty = false) (hstall : ∀ c ∈ stall, c.before.cache.state.isStalled = true) :
    miss.after.cache.state = .refill {} ∧
      miss.after.link.monitor.writes = miss.before.link.monitor.writes ∧
      ∀ c ∈ stall, c.Fetches ∧ c.after.link.monitor.writes = miss.before.link.monitor.writes := by
  subst hcycles
  obtain ⟨hearlier, hstep, hrest⟩ := h.of_mem
  obtain ⟨middle, hwait, _⟩ := hrest.of_append
  obtain ⟨_, _, _, hafter⟩ := run_tick_eq_ok.mp hstep
  have hloaded : victim = miss.before.cache.loaded := by
    have hline := (hearlier.valid.line?_of_misses hmiss.misses).1
    exact Option.some.inj (hmiss.line?_eq.symm.trans hline)
  have hstate : miss.after.cache.state = .refill {} := by
    have hdirty : miss.before.cache.tags.out.dirty = false :=
      (congrArg Cache.Line.dirty hloaded).symm.trans hclean
    rw [hafter, cache_next, Cache.next_check hmiss.serving, Cache.state_checkEdge, hmiss.misses, hdirty]
    rfl
  have hwrites : miss.after.link.monitor.writes = miss.before.link.monitor.writes := by
    rw [hafter, Monitor.writes, log_next_check hearlier.watches hmiss.serving, Monitor.writes]
  have hwatches : miss.after.link.monitor.Watches miss.after.cache := by
    rw [hafter]
    exact (Monitor.watches_next hearlier.watches miss.bus _).2
  obtain ⟨_, _, hall⟩ := hwait.fetching hwatches hstate hstall
  exact ⟨hstate, hwrites, fun c hc => ⟨(hall c hc).1, (hall c hc).2.trans hwrites⟩⟩

end Cold

/-! ## The whole statement -/

/-- **Write-backs are exact and in order**, for every geometry, every store and every sequence of requests.
In every state that a run reaches:

* a line is dirty exactly when a write to it was acknowledged after its last refill, or when lines start out
  dirty and it was never refilled;
* every write in the log is the write-back of a line that missed while it was dirty, in full;
* the entry after it reads the block that the line missed, under another tag, and as long as it is not there
  the cache is still busy with that miss;
* a miss on a clean line goes straight to the refill: the cache offers no write and none completes until it
  serves requests again. -/
theorem write_backs_exact [BackingStore S] (g : Geometry) (store : S) (general : Config.General)
    {cycles : List (Cycle S)} {s : Simulator S}
    (h : Trace (ofStore (Cache.ofGeometry g) store general) cycles s) :
    (∀ i < g.lines, ∃ l, s.cache.line? i = some l ∧ (l.dirty = true ↔ DirtySince g.dirtyInit cycles i)) ∧
      (∀ i op, s.link.monitor.log[i]? = some op → op.we = true →
        ∃ miss victim, WritesBack g cycles i op miss victim ∧
          FollowedBy g s miss s.link.monitor.log[i + 1]?) ∧
      (∀ earlier miss stall later victim, cycles = earlier ++ miss :: (stall ++ later) →
        miss.Misses victim → victim.dirty = false →
        (∀ c ∈ stall, c.before.cache.state.isStalled = true) →
        miss.after.cache.state = .refill {} ∧
          miss.after.link.monitor.writes = miss.before.link.monitor.writes ∧
          ∀ c ∈ stall, c.before.cache.linkRequest.write = none ∧
            (∀ command ∈ c.before.cache.linkRequest.command, command.we = false) ∧
            c.after.link.monitor.writes = miss.before.link.monitor.writes) := by
  refine ⟨fun i hi => h.dirty_iff hi, h.logged, ?_⟩
  intro earlier miss stall later victim hcycles hmiss hclean hstall
  obtain ⟨hstate, hwrites, hall⟩ := h.clean_miss hcycles hmiss hclean hstall
  refine ⟨hstate, hwrites, fun c hc => ?_⟩
  obtain ⟨hfetches, hc⟩ := hall c hc
  exact ⟨hfetches.offers_no_write.1, hfetches.offers_no_write.2, hc⟩

/-- A write to the cold line and a read of another block, with a store that takes everything at once: the
line is dirty and is written back. -/
theorem write_backs_exact_dirty_victim :
    ∃ cycles s, Trace (ofStore (Cache.ofGeometry tiny)
        (Scripted.mk (List.replicate 6 { commandReady := true, writeReady := true })) {}) cycles s ∧
      ∃ op miss victim, s.link.monitor.log = #[op] ∧ WritesBack tiny cycles 0 op miss victim ∧
        FollowedBy tiny s miss none := by
  obtain ⟨cycles, ht, _⟩ := exists_trace tiny
    (Scripted.mk (List.replicate 6 { commandReady := true, writeReady := true })) {}
    [.write 6 0xabcd 3, .write 6 0xabcd 3, .read 0 3, .read 0 3, .read 0 3] (by decide)
  obtain ⟨_, hlog, _⟩ := write_backs_exact tiny _ {} ht
  obtain ⟨miss, victim, hback, hfollow⟩ := hlog 0 ⟨4, 3, true, false, [0xcd, 0xab, 0, 0], 15⟩ rfl rfl
  exact ⟨cycles, _, ht, _, miss, victim, rfl, hback, hfollow⟩

end Simulator

end WriteBack
